/-!
# Reading from the front of a list

A reader takes something off the front of a list and leaves the rest. What it returns says that
the rest is shorter, so a loop over readers ends because the list does. Two loops know beforehand
how often they run: one takes members as they are, one reads something from each place it comes to.
-/

namespace RowFilter

/-- Something read off the front of `input`, and the rest. -/
structure Reading {τ : Type} (α : Type) (input : List τ) where
  value : α
  rest : List τ
  shorter : rest.length < input.length

variable {τ α β : Type} {input short long : List τ}

namespace Reading

/-- The same reading, as one from a longer input. -/
def ofLonger (r : Reading α short) (h : short.length < long.length) : Reading α long :=
  ⟨r.value, r.rest, Nat.lt_trans r.shorter h⟩

/-- The reading with another value. -/
def map (f : α → β) (r : Reading α input) : Reading β input :=
  ⟨f r.value, r.rest, r.shorter⟩

end Reading

/-- Takes exactly `count` members, with those taken so far in reverse order. -/
def takeFrom (taken : List τ) : (count : Nat) → (members : List τ) →
    members.length < input.length → Option (Reading (List τ) input)
  | 0, members, h => some ⟨taken.reverse, members, h⟩
  | _ + 1, [], _ => none
  | count + 1, x :: rest, h =>
    takeFrom (x :: taken) count rest (Nat.lt_trans (Nat.lt_succ_self _) h)

/-- Reads exactly `count` things, with those read so far in reverse order. -/
def countedFrom (one : (members : List τ) → Option (Reading α members)) (read : List α) :
    (count : Nat) → (members : List τ) → members.length < input.length →
      Option (Reading (List α) input)
  | 0, members, h => some ⟨read.reverse, members, h⟩
  | count + 1, members, h =>
    match one members with
    | none => none
    | some r => countedFrom one (r.value :: read) count r.rest (Nat.lt_trans r.shorter h)

/-- Members that stand in front are taken one by one. -/
theorem takeFrom_append (taken front rest : List τ) (h : (front ++ rest).length < input.length) :
    ∃ h', takeFrom taken front.length (front ++ rest) h =
      some ⟨taken.reverse ++ front, rest, h'⟩ := by
  induction front generalizing taken with
  | nil => exact ⟨h, by simp [takeFrom]⟩
  | cons x front ih =>
    obtain ⟨h', hfront⟩ := ih (x :: taken) (Nat.lt_trans (Nat.lt_succ_self _) h)
    refine ⟨h', ?_⟩
    show takeFrom (x :: taken) front.length (front ++ rest) _ = _
    rw [hfront]
    simp

/-- As many members as are asked for. -/
theorem takeFrom_exact {count : Nat} {front rest : List τ} (hcount : front.length = count)
    (h : (front ++ rest).length < input.length) :
    ∃ h', takeFrom [] count (front ++ rest) h = some ⟨front, rest, h'⟩ := by
  subst hcount
  exact takeFrom_append [] front rest h

section Counted

variable {one : (members : List τ) → Option (Reading α members)} {read : List α} {count : Nat}
  {members rest : List τ} {h : members.length < input.length}

/-- What is read joins what was read before. -/
theorem countedFrom_of_some {a : α} {hrest : rest.length < members.length}
    (hone : one members = some ⟨a, rest, hrest⟩) :
    countedFrom one read (count + 1) members h =
      countedFrom one (a :: read) count rest (Nat.lt_trans hrest h) := by
  rw [countedFrom, hone]

/-- Nothing is read in all where one reading fails. -/
theorem countedFrom_of_none (hone : one members = none) :
    countedFrom one read (count + 1) members h = none := by
  rw [countedFrom, hone]

end Counted

end RowFilter
