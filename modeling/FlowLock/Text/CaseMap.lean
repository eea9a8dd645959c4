import FlowLock.Text.Blank

/-!
# Upper and lower case

Case forms of whole texts.  Most letters have a form of one letter, given by
runs; a few letters have a longer upper form; and the capital sigma has two lower
forms, of which the one for the end of a word is taken after a letter with case
and before none.
-/

namespace FlowLock.Text

/-- Every `step`-th code point from `first` to `last` moves by `delta`. -/
structure CaseRun where
  first : Nat
  last : Nat
  step : Nat
  delta : Int

def CaseRun.covers (run : CaseRun) (n : Nat) : Bool :=
  run.first ≤ n && n ≤ run.last && (n - run.first) % run.step == 0

/-- Runs as a table writes them: three numbers say how far a run begins after the last letter of the
one before it, how far its last letter is from its first, and how far its letters move, twice
that for a move up and one less for a move down.  A run whose letters move by one has every
second letter. -/
def caseRunsAfter : Nat → List Nat → List CaseRun
  | last, gap :: span :: move :: rest =>
    let delta : Int := if move % 2 == 0 then move / 2 else -((move + 1) / 2)
    { first := last + gap, last := last + gap + span, step := if delta == 1 then 2 else 1, delta } ::
      caseRunsAfter (last + gap + span) rest
  | _, _ => []

def lowerRuns : List CaseRun :=
  caseRunsAfter 0
    [65, 25, 64, 102, 22, 64, 2, 6, 64, 34, 46, 2, 4, 4, 2, 3, 14, 2, 3, 44, 2, 2, 0, 241, 1, 4,
     2, 4, 0, 420, 1, 2, 2, 2, 0, 412, 1, 0, 2, 2, 1, 410, 1, 0, 2, 3, 0, 158, 1, 0, 404, 1, 0,
     406, 1, 0, 2, 2, 0, 410, 1, 0, 414, 2, 0, 422, 1, 0, 418, 1, 0, 2, 4, 0, 422, 1, 0, 426, 2,
     0, 428, 1, 4, 2, 2, 0, 436, 1, 0, 2, 2, 0, 436, 3, 0, 2, 2, 0, 436, 1, 0, 2, 2, 1, 434, 1,
     2, 2, 2, 0, 438, 1, 0, 2, 4, 0, 2, 8, 0, 4, 1, 0, 2, 2, 0, 4, 1, 0, 2, 2, 0, 4, 1, 16, 2, 3,
     16, 2, 3, 0, 4, 1, 2, 2, 2, 0, 193, 1, 0, 111, 1, 38, 2, 2, 0, 259, 2, 16, 2, 8, 0, 21590,
     1, 0, 2, 2, 0, 325, 1, 0, 21584, 3, 0, 2, 2, 0, 389, 1, 0, 138, 1, 0, 142, 1, 8, 2, 290, 2,
     2, 4, 0, 2, 9, 0, 232, 7, 0, 76, 2, 2, 74, 2, 0, 128, 2, 1, 126, 2, 16, 64, 2, 8, 64, 36, 0,
     16, 9, 22, 2, 6, 0, 119, 3, 0, 2, 2, 0, 13, 1, 0, 2, 3, 2, 259, 1, 15, 160, 1, 31, 64, 49,
     32, 2, 10, 52, 2, 2, 0, 30, 1, 12, 2, 3, 94, 2, 3, 37, 96, 2890, 37, 14528, 2, 0, 14528, 6,
     0, 14528, 723, 79, 77728, 1, 5, 16, 2203, 42, 6015, 3, 2, 6015, 321, 148, 2, 10, 0, 15229,
     2, 94, 2, 10, 7, 15, 9, 5, 15, 11, 7, 15, 9, 7, 15, 9, 5, 15, 12, 0, 15, 2, 0, 15, 2, 0, 15,
     2, 0, 15, 9, 7, 15, 25, 7, 15, 9, 7, 15, 9, 7, 15, 9, 1, 15, 1, 1, 147, 1, 0, 17, 12, 3,
     171, 1, 0, 17, 12, 1, 15, 1, 1, 199, 13, 1, 15, 1, 1, 223, 1, 0, 13, 12, 1, 255, 1, 1, 251,
     1, 0, 17, 298, 0, 15033, 4, 0, 16765, 1, 0, 16523, 7, 0, 56, 46, 15, 32, 20, 0, 2, 819, 25,
     52, 1841, 47, 96, 49, 0, 2, 2, 0, 21485, 1, 0, 7627, 1, 0, 21453, 3, 4, 2, 2, 0, 21559, 1,
     0, 21497, 1, 0, 21565, 1, 0, 21563, 2, 0, 2, 3, 0, 2, 9, 1, 21629, 1, 98, 2, 9, 2, 2, 5, 0,
     2, 31054, 44, 2, 20, 26, 2, 136, 12, 2, 4, 60, 2, 11, 2, 2, 2, 0, 70663, 1, 8, 2, 5, 0, 2,
     2, 0, 84559, 3, 2, 2, 4, 18, 2, 2, 0, 84615, 1, 0, 84637, 1, 0, 84629, 1, 0, 84609, 1, 0,
     84615, 2, 0, 84515, 1, 0, 84563, 1, 0, 84521, 1, 0, 1856, 1, 14, 2, 2, 0, 95, 1, 0, 84613,
     1, 0, 70767, 1, 2, 2, 7, 0, 2, 6, 2, 2, 29, 0, 2, 22316, 25, 64, 1222, 39, 80, 137, 35, 80,
     157, 10, 78, 2, 14, 78, 2, 6, 78, 2, 1, 78, 1771, 50, 128, 3054, 31, 64, 21889, 31, 64,
     31393, 33, 68]

/-- The code points with an upper form of one letter that does not have them as its lower form. -/
def upperOnly : List (Nat × Nat) :=
  [(0xb5, 0x39c), (0x131, 0x49), (0x17f, 0x53), (0x1c5, 0x1c4), (0x1c8, 0x1c7), (0x1cb, 0x1ca),
   (0x1f2, 0x1f1), (0x345, 0x399), (0x3c2, 0x3a3), (0x3d0, 0x392), (0x3d1, 0x398),
   (0x3d5, 0x3a6), (0x3d6, 0x3a0), (0x3f0, 0x39a), (0x3f1, 0x3a1), (0x3f5, 0x395),
   (0x1c80, 0x412), (0x1c81, 0x414), (0x1c82, 0x41e), (0x1c83, 0x421), (0x1c84, 0x422),
   (0x1c85, 0x422), (0x1c86, 0x42a), (0x1c87, 0x462), (0x1c88, 0xa64a), (0x1e9b, 0x1e60),
   (0x1fbe, 0x399)]

def CaseRun.back (run : CaseRun) : CaseRun :=
  let moved (n : Nat) : Nat := (n + run.delta).toNat
  { first := moved run.first, last := moved run.last, step := run.step, delta := -run.delta }

/-- Runs of code points with a one-letter upper form; where two apply, the first counts. -/
def upperRuns : List CaseRun :=
  upperOnly.map (fun (n, m) => { first := n, last := n, step := 1, delta := (m : Int) - n }) ++
    lowerRuns.map CaseRun.back

/-- Letters with an iota below them: in upper case it stands after the letter. -/
def iotaExpansions : List (Nat × List Nat) :=
  (List.range 48).map fun k =>
    (0x1f80 + k, [[0x1f08, 0x1f28, 0x1f68].getD (k / 16) 0 + k % 8, 0x399])

/-- Letters and their upper forms as a table writes them: how far a letter is after the one before
it, and the two or three letters of its form. -/
def expansionsAfter : Nat → List Nat → List (Nat × List Nat)
  | last, gap :: a :: b :: c :: rest =>
    (last + gap, [a, b, c].filter (· != 0)) :: expansionsAfter (last + gap) rest
  | _, _ => []

def upperExpansions : List (Nat × List Nat) :=
  iotaExpansions ++ expansionsAfter 0
    [223, 83, 83, 0, 106, 700, 78, 0, 167, 74, 780, 0, 416, 921, 776, 769, 32, 933, 776, 769,
     471, 1333, 1362, 0, 6415, 72, 817, 0, 1, 84, 776, 0, 1, 87, 778, 0, 1, 89, 778, 0, 1, 65,
     702, 0, 182, 933, 787, 0, 2, 933, 787, 768, 2, 933, 787, 769, 2, 933, 787, 834, 92, 8122,
     921, 0, 1, 913, 921, 0, 1, 902, 921, 0, 2, 913, 834, 0, 1, 913, 834, 921, 5, 913, 921, 0, 6,
     8138, 921, 0, 1, 919, 921, 0, 1, 905, 921, 0, 2, 919, 834, 0, 1, 919, 834, 921, 5, 919, 921,
     0, 6, 921, 776, 768, 1, 921, 776, 769, 3, 921, 834, 0, 1, 921, 776, 834, 11, 933, 776, 768,
     1, 933, 776, 769, 1, 929, 787, 0, 2, 933, 834, 0, 1, 933, 776, 834, 11, 8186, 921, 0, 1,
     937, 921, 0, 1, 911, 921, 0, 2, 937, 834, 0, 1, 937, 834, 921, 5, 937, 921, 0, 56068, 70,
     70, 0, 1, 70, 73, 0, 1, 70, 76, 0, 1, 70, 70, 73, 1, 70, 70, 76, 1, 83, 84, 0, 1, 83, 84, 0,
     13, 1348, 1350, 0, 1, 1348, 1333, 0, 1, 1348, 1339, 0, 1, 1358, 1350, 0, 1, 1348, 1341, 0]

/-- The runs around the letters that have case and count for the shape of a final sigma. -/
def casedRuns : List Nat :=
  lengths "
    65AgAVbkbebfxbFb195bee208bB192eccddbbgbbdbbbub83b139i166bMjP2839MbbfbcRcd672 86cg2178jhRcd64S
    63nbI101 278cgcMcgcibbbbbbbFc53bhbbddbhdecgenfdbh261bebckbbdfgbbbbbbebgebceffebrGdc817 52 1814
    124c103gedcmMbbfb30994UsC134 78bxdeb59fcbbbfBcdb821Rfjh80 20288hmf1033AgA1189 80 96KeK116lbpbh
    bcblbpbhbc1731ZnZ2989 64 21856 64 25984 85b71bccbcccebmbbbhb65becibhbCbebfbbdhb340czbzbFbzbFbz
    bFbzbFbzbi1844kbu2529 68 2028AgAgA"

/-- The runs around the code points that are passed over when the shape of a sigma is decided. -/
def caseIgnorableRuns : List Nat :=
  lengths "
    NbgblbJbbb71bebbbebcc503 192ecebjcbb251h207bfbXTbbbcbcbbSblgklbbJbkvqb101ibkbeHbbbEB91l58lebcb
    yyRdSbhcgiP58 55bbbeiebdhkcnbpb58beeibucAbcc57bececcddbEcdblc57befbcebucwgbb58bcbbeibhclcEb61b
    mbYbdb55bbdfdbehclcDb58bcbgbfcucCc57ceeibucDb72bhdbb90bchlj98bcjjbbg74cBbbbbb55obfbcflbKjb102e
    bgbccczcedqenbccgbpb94b608d946dDcEcEc64cbhibcldbfbTfZb65cIb118decjbgd219ccb58bbhbbbbcigkcbNbiF
    XeWbbfbbfbOjmcGeccbd56bbcdbbd58icc64g82dbnbhebgbdcY63nbI101 445bbdldndndncmfickbcbcfXfbkbbnbqn
    ZH2955c113d125bpb96GVb469bKedffb93g93d28438b1250g270b98ebkbbCe80coI78bxd103ddcibdbebzcfb151cAs
    nbMizlUdWbceccrbvc66gccccmbibJblbZbbdccfcbbBbocfcbb100fjd121bcbeb20272b147r573qdbmqIbcb169bhbg
    blbJbbbVbTc67bvd513b226b149f1029gbQbj582dbcfeOdeb165c573e387c153lXe123b54pPbcckdXecccbebkbYdKf
    bi62bmc52jkecb95dcbbcgb160bdivc57cdbLhdf195icdbbxb84gbbecbc238egcbcBc85icbbc106bbbcgbb101dcebf
    259jbc256cbbeb144eccebGkOgceibjgcdUnbc406hbgbb82wchbcbc122gdbbcbhbb72cdbbb347c5435j14007f59hje
    1035b63r64cbc16395ebhbc3230cbe4700Ucx544djqchEe148d1979 55eYibobwfbp1360hbrchbcbf261o368b61e
    1504h109i2735f789505bE96 128 240"

/-- The one-letter form that the runs give to a letter, or the letter itself. -/
def mapByRuns (runs : List CaseRun) (c : Char) : Char :=
  match runs.find? (·.covers c.toNat) with
  | some run => Char.ofNat (Int.ofNat c.toNat + run.delta).toNat
  | none => c

/-- Whether the nearest character that counts in a direction has case. -/
def meetsCased (cs : List Char) : Bool :=
  match cs.dropWhile fun c => inRuns caseIgnorableRuns c.toNat with
  | [] => false
  | c :: _ => inRuns casedRuns c.toNat

/-- The lower form of one letter, given the letters before it (nearest first) and
after it. -/
def lowerChar (before : List Char) (c : Char) (after : List Char) : List Char :=
  if c.toNat < 0x80 then [c.toLower]
  else if c.toNat == 0x3a3 then
    [Char.ofNat (if meetsCased before && !meetsCased after then 0x3c2 else 0x3c3)]
  else if c.toNat == 0x130 then ['i', Char.ofNat 0x307]
  else [mapByRuns lowerRuns c]

/-- The lower form of a list of characters; `before` holds those already read,
nearest first. -/
def lowerList (before : List Char) : List Char → List Char
  | [] => []
  | c :: cs => lowerChar before c cs ++ lowerList (c :: before) cs

def lower (s : String) : String :=
  String.ofList (lowerList [] s.toList)

def upperChar (c : Char) : List Char :=
  if c.toNat < 0x80 then [c.toUpper]
  else match upperExpansions.find? (·.1 == c.toNat) with
    | some expansion => expansion.2.map Char.ofNat
    | none => [mapByRuns upperRuns c]

def upper (s : String) : String :=
  String.ofList (s.toList.flatMap upperChar)

/-- An ASCII word with its first letter upper and the rest lower. -/
def capitalize (s : String) : String :=
  match s.toList with
  | [] => ""
  | c :: cs => String.ofList (c.toUpper :: cs.map Char.toLower)

end FlowLock.Text
