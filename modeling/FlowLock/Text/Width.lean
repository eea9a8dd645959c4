import FlowLock.Text.Blank
import FlowLock.Text.Half

/-!
# Widths of characters

A terminal gives most characters one column, ideographs and most pictograms two, and
marks that are drawn over another character none.
-/

namespace FlowLock.Text

/-- The runs around the code points that take no column: controls, marks and joiners. -/
def flatRuns : List Nat :=
  lengths "
    aG95Hnb594 112 275h263Tbbbcbcbb56gklbbUvqb101ibgccbeHbbbEB91l58jjbyebjbdbfRd52cgiQ58 54dbsbhkc
    Dd56bbhcccdjbkcAbcd56bbfeccddbEcdbld56bbibdbducwgbd56bbhcccdhdkcEb59fddbejbOf55bbhbdbehclcDd56
    bbhbdbehclcpbme55cbhbdbejbkcDd70begbbbisc61bchmi98bcjlh73cBbbbbbecXubcflbKjb100uxeedbdchdenmbb
    ke194 160 349d946eCdDcEc64GjbTf117cIb118mem219f57kbDcbWFXfVrMjmdEn56oWu152dbvebgbcd198 64 523f
    yhXfbk96H3070d141b96G554g105c30164ebkGc80c272bdbebxfeb83cYsAsnbMiznSeVoKb67ombicTdYbbdccfcbbPf
    fc236ibc11202 80 8990b737qqq207b249d513b226b149f1670dbcfeOdeb165c573e387c80d70lXe122d53pPbccke
    TlcbebkbYdKoqcSbmdWoiebc92mgbcb157mve55cbhcccdjbkcchdf192sxb81u235hcjBc82r106n101p256p245gbcce
    bbbc141hchdbCkOhbeibjlUq405ibi82wbo122gdbbcbhbb66fbcbf347ejcbbWhdf5357rgp13978f59h1048bb55he81
    blc19627cbe4700Ucx542fdwchEe148d1979 55eYibobwfbp1360hbrchbcbf100b160h375b61e508e992h109h2736f
    789505bE96 128 240"

/-- The runs around the code points that take two columns. -/
def wideRuns : List Nat :=
  lengths "
    4352 96 4538cnc190edbcb521cvcYmRbtbnbicrcfcibfbvbhcbbebcbhbecCbJbbbedbb61dybob859cZbeb810Ab89m
    214A58gpc86e101fRb94b84lWbOi7024 64 22157d55 1177D643 11172 8540 512 784kwJbtbe149 96 127h
    28665eC6136i1238Qj8935ebhbcb291pbDdcboei396 15624b202b190bck101dnSejhcog154Hmjb70bwmRefmrdbddf
    63bbb187c63nebysbAcnb86 85W70gbddcdeelchj227meb283Vbkb185 112ndjhUbhioejhj1287 65534c65534"

def columns (c : Char) : Nat :=
  let n := code c
  if inRuns flatRuns n then 0 else if inRuns wideRuns n then 2 else 1

end FlowLock.Text
