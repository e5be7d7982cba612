import Undelete.ForStd.Bytes

/-!
# Lines of a byte string

`splitInclusive` cuts a byte string behind every separator, as Rust's
`slice::split_inclusive` does: only the last piece may lack one.
-/

namespace Bytes

/-- The pieces of a byte string, each with the separator that ends it. -/
def splitInclusive (sep : UInt8) : Bytes → List Bytes
  | [] => []
  | b :: rest =>
    if b = sep then [b] :: splitInclusive sep rest
    else
      match splitInclusive sep rest with
      | [] => [[b]]
      | line :: lines => (b :: line) :: lines

/-- The piece without the separator at its end, if there is one. -/
def stripSuffix (sep : UInt8) (line : Bytes) : Option Bytes :=
  if line.getLast? = some sep then some line.dropLast else none

variable {sep : UInt8}

theorem stripSuffix_eq_some {line body : Bytes} :
    stripSuffix sep line = some body ↔ line = body ++ [sep] := by
  unfold stripSuffix
  constructor
  · intro h
    split at h
    · next hlast =>
      obtain ⟨init, rfl⟩ := List.getLast?_eq_some_iff.mp hlast
      rw [List.dropLast_concat] at h
      rw [Option.some.inj h]
    · cases h
  · rintro rfl
    rw [if_pos List.getLast?_concat, List.dropLast_concat]

theorem flatten_splitInclusive (b : Bytes) : (splitInclusive sep b).flatten = b := by
  induction b with
  | nil => rfl
  | cons b rest ih =>
    unfold splitInclusive
    split
    · rw [List.flatten_cons, ih]
      rfl
    · split
      · next hnil =>
        rw [hnil] at ih
        rw [← ih]
        rfl
      · next line lines hlines =>
        rw [hlines] at ih
        rw [← ih]
        rfl

/-- A line in front of other bytes is the first piece. -/
theorem splitInclusive_line {line : Bytes} (rest : Bytes) (h : sep ∉ line) :
    splitInclusive sep (line ++ sep :: rest) = (line ++ [sep]) :: splitInclusive sep rest := by
  induction line with
  | nil => simp only [List.nil_append, splitInclusive, if_true]
  | cons b line ih =>
    have hb : b ≠ sep := fun hb => h (hb ▸ List.mem_cons_self)
    have ih := ih fun hmem => h (List.mem_cons_of_mem b hmem)
    simp only [List.cons_append, splitInclusive, if_neg hb, ih]

/-- Lines are cut apart again. -/
theorem splitInclusive_flatten {bodies : List Bytes} (h : ∀ body ∈ bodies, sep ∉ body) :
    splitInclusive sep (bodies.map (· ++ [sep])).flatten = bodies.map (· ++ [sep]) := by
  induction bodies with
  | nil => rfl
  | cons body bodies ih =>
    rw [List.map_cons, List.flatten_cons, List.append_assoc, List.singleton_append,
      splitInclusive_line _ (h body List.mem_cons_self),
      ih fun body hbody => h body (List.mem_cons_of_mem _ hbody)]

end Bytes
