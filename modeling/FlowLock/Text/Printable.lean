import FlowLock.Text.Blank

/-!
# Printable characters

A quoted text shows a printable character as itself and any other as an escape.
The class is given by its complement.
-/

namespace FlowLock.Text

/-- The runs of code points that a quoted text shows as themselves and as an escape: controls,
formats, private use, unassigned ones and all separators but the plain space. -/
def unprintableRuns : List Nat :=
  lengths "
    aG95Imb714cgehbbbub397bMcYcdb55iBegrwb192bWc59c101o59cXcpbCcbblfFj74b161bicccwbhbbdecjccceibec
    bfczcdbgeccwbhbcbcbccbbfeccddbhebbhrkdbjbdbwbhbcbfckbdbdcbpecmhhbdbicccwbhbcbfcjcccdhdecbfcskc
    bgddbedcbbbcdcdddmefddbecbgbovfnbdbxbqcjbdbehcbdcbceckhwbdbxbkbfcjbdbehcgcbeckbcnnbdbZbdbgeqcA
    bdbsdybjbbchdbegbbbigkcdm58eDLcbbbfbybbbxcfbbbgckceG72bKeNbKbpbnL198bbfbc377bechbbbecPbecHbech
    bbbecpb57bec67cGdAg86cgc640bCd89hwjyjumnbdbcm94ckgkgoblg89hRf70kFbmemebdQcflSeAgld62c65bDclgkg
    ocFX77dVb116i60dpd60hRcliRf534cgcMcgcibbbbbbbFc53bpbocgbtcdbjryiVrccBbndHpHp140e663zlv1812cGb
    349fTbbfbc56hcoyjhbhbhbhbhbhbhbhb126IAb89m214Amf63b86c103fRb94b84mVb29293d55j348u184i203fcbbbf
    y59dkg56i70img116lEd78bleHb55jockc103yCkgcgcgjhbhb60e126ckg11172mxeX8452 366c106MhmffAbfbbbcbc
    b125q445c54hbGQgZbtbeefb135e190dgcgcgcddhbhnccmbAbtbcbpcoI123fdeTd88bndbVU130DdXpCeKjEfRfEbLeo
    Q158ckgKeKeOi52lmbpbhbcblbpbhbc67 311jwkiygbQbj69gcbbSbcdbcxb72ijWtbcfHdBfb64 56eucYbcfibdbDcd
    ekhjh64GNemj54dDcBfAhemh80 73 55ZnZhUik294FbQbdcc78OiQwAMCuxj78eKj62bfnzhkg53bsiNj96bulsbS65hb
    bbebpblg59fkgebicccwbhbcbfbkcccdcbgbfhchdf139 92bfE72ik166 54cMI69lkgnt58gk54Bcpex185 60 100
    83micbcibcbEbccmjk70icUclB72i83n73 263jbTbokDdGcwbo73hbcbSdbbcbjikggbcbLbcbghk310z183bpYn923
    102 111bfl196 2636 99n1071 4049 583 8633 569hFbke81bkgEcgk70kkbhbvft688 91 101 75e57hr64flco
    6136i1238Qj8935ebhbcb291Tdrei396 2308 107fndjhkce4704Ucxj116 60 246kNc74i112v70 154um87jz135
    85b71bccbcccebmbbbhb65becibhbCbebfbbdhb340c292c702pfbp1104F225hbrchbcbf213Tdockec320Fr58fb1248
    hbebcbpb197cqP76ekec785 68 76 61 194ebBbcbbcbbkbebbbbgbebbbbbbdbcbbcbbbbbbbbbbcbbcebhbebebbbkb
    rfdbfbr52c270Se100mpcpbpbLk174 56DnSejhcog154 984fqdnd116m89hmebpme56ikgOiEcc78 340mocfdfdhjDd
    lfgkkgiihj147b55Lk1030 42720G4153h222c5762o7473 3103 542 1506 4939 716213 240 196112"

/-- Whether a character is shown as itself inside quotes. -/
def isPrintable (c : Char) : Bool :=
  if c.toNat < 0x7f then 0x20 ≤ c.toNat else !inRuns unprintableRuns c.toNat

end FlowLock.Text
