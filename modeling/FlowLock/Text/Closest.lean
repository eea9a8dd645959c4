/-!
# Words that look alike

How much two words have in common is measured by their matching blocks: the
longest piece that both contain, then, to the left and to the right of it, the
same again.  The share of matched characters tells how close the words are.
-/

namespace FlowLock.Text

def commonStart : List Char → List Char → Nat
  | a :: as, b :: bs => if a = b then commonStart as bs + 1 else 0
  | _, _ => 0

structure Match where
  left : Nat
  right : Nat
  size : Nat
deriving Repr, DecidableEq

def Match.longer (m n : Match) : Match := if n.size > m.size then n else m

/-- The longest match of the first word's start with a piece of the second. -/
def matchesFrom (left : Nat) (as : List Char) : Nat → List Char → Match → Match
  | _, [], best => best
  | right, b :: bs, best =>
    matchesFrom left as (right + 1) bs (best.longer ⟨left, right, commonStart as (b :: bs)⟩)

def longestFrom (bs : List Char) : Nat → List Char → Match → Match
  | _, [], best => best
  | left, a :: as, best => longestFrom bs (left + 1) as (matchesFrom left (a :: as) 0 bs best)

/-- The longest common piece; of several the one that comes first in the first word,
then in the second. -/
def longestMatch (as bs : List Char) : Match := longestFrom bs 0 as ⟨0, 0, 0⟩

/-- The number of matched characters; `n` bounds the number of blocks in a row. -/
def matchedWithin : Nat → List Char → List Char → Nat
  | 0, _, _ => 0
  | n + 1, as, bs =>
    let m := longestMatch as bs
    if m.size == 0 then 0
    else m.size + matchedWithin n (as.take m.left) (bs.take m.right) +
      matchedWithin n (as.drop (m.left + m.size)) (bs.drop (m.right + m.size))

def matched (as bs : List Char) : Nat := matchedWithin (as.length + 1) as bs

def share (candidate word : String) : Nat × Nat :=
  (2 * matched candidate.toList word.toList, candidate.length + word.length)

/-- Whether the first candidate is closer; of two that are equally close the one
later in the order of texts is. -/
def isCloser (s t : (Nat × Nat) × String) : Bool :=
  let a := s.1.1 * t.1.2
  let b := t.1.1 * s.1.2
  a > b || (a == b && t.2 < s.2)

def closest? (word : String) (candidates : List String) : Option String :=
  let close := (candidates.map fun c => (share c word, c)).filter fun s => 5 * s.1.1 ≥ 3 * s.1.2
  match close with
  | [] => none
  | s :: rest => some (rest.foldl (fun best t => if isCloser t best then t else best) s).2

end FlowLock.Text
