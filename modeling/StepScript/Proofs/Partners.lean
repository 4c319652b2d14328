import StepScript.Block

/-!
# Partners of markers

What the forward scans for the partners of a marker find, on every list of statements: the closer
stands after the marker and closes the block of its family, and the middle, when there is one,
stands between the two and divides a block of that family.
-/

set_option autoImplicit false

namespace StepScript.Block

variable {b : Block} {after : List Statement} {position depth : Nat} {middle : Option Nat}
  {span : Span}

/-! ## Scans -/

/-- A statement of the given sort stands at a place of a list whose first statement stands at
    `position`. -/
def StandsAt (sort : Statement → Prop) (after : List Statement) (position place : Nat) : Prop :=
  ∃ i s, after[i]? = some s ∧ sort s ∧ place = position + i

theorem StandsAt.cons {sort : Statement → Prop} {place : Nat} (s : Statement)
    (h : StandsAt sort after (position + 1) place) : StandsAt sort (s :: after) position place := by
  obtain ⟨i, c, hi, hc, hplace⟩ := h
  exact ⟨i + 1, c, by simpa using hi, hc, by omega⟩

/-- The place of a statement in the rest of a list is its place in the list. -/
theorem StandsAt.getElem? {sort : Statement → Prop} {body : List Statement} {place : Nat}
    (h : StandsAt sort (body.drop position) position place) :
    position ≤ place ∧ ∃ s, body[place]? = some s ∧ sort s := by
  obtain ⟨i, s, hi, hs, rfl⟩ := h
  rw [List.getElem?_drop] at hi
  exact ⟨by omega, s, hi, hs⟩

/-- The scan from an opener stops at a closer of its family. -/
theorem spanFrom?_stop (h : b.spanFrom? after position depth middle = some span) :
    StandsAt (fun c => c.closes? = some b) after position span.stop := by
  induction after generalizing position depth middle with
  | nil => simp [spanFrom?] at h
  | cons s rest ih =>
    unfold spanFrom? at h
    split at h
    · exact (ih h).cons s
    · split at h
      · next hcloses =>
        split at h
        · cases h
          exact ⟨0, s, rfl, hcloses, rfl⟩
        · exact (ih h).cons s
      · split at h
        · exact (ih h).cons s
        · exact (ih h).cons s

/-- The middle that the scan from an opener gives was met before, or stands before the closer and
    divides a block of the family. -/
theorem spanFrom?_middle (h : b.spanFrom? after position depth middle = some span) :
    span.middle = middle ∨ ∃ m, span.middle = some m ∧ m < span.stop ∧
      StandsAt (fun d => d.divides? = some b) after position m := by
  -- What is found in the rest is found in the whole.
  have shift {s : Statement} {rest : List Statement} {position : Nat} {earlier : Option Nat}
      (hrest : span.middle = earlier ∨ ∃ m, span.middle = some m ∧ m < span.stop ∧
        StandsAt (fun d => d.divides? = some b) rest (position + 1) m) :
      span.middle = earlier ∨ ∃ m, span.middle = some m ∧ m < span.stop ∧
        StandsAt (fun d => d.divides? = some b) (s :: rest) position m :=
    hrest.imp_right fun ⟨m, hm, hlt, hat⟩ => ⟨m, hm, hlt, hat.cons s⟩
  induction after generalizing position depth middle with
  | nil => simp [spanFrom?] at h
  | cons s rest ih =>
    unfold spanFrom? at h
    split at h
    · exact shift (ih h)
    · split at h
      · split at h
        · cases h
          exact Or.inl rfl
        · exact shift (ih h)
      · split at h
        · next hdivides =>
          obtain ⟨-, rfl, hdivides⟩ := hdivides
          rcases ih h with hmiddle | ⟨m, hm, hlt, hat⟩
          · obtain ⟨i, -, -, -, hstop⟩ := spanFrom?_stop h
            exact Or.inr ⟨position, hmiddle, by omega, 0, s, rfl, hdivides, rfl⟩
          · exact Or.inr ⟨m, hm, hlt, hat.cons s⟩
        · exact shift (ih h)

/-- The scan from a middle marker stops at a closer of its family. -/
theorem closerFrom?_stop {stop : Nat} (h : b.closerFrom? after position depth = some stop) :
    StandsAt (fun c => c.closes? = some b) after position stop := by
  induction after generalizing position depth with
  | nil => simp [closerFrom?] at h
  | cons s rest ih =>
    unfold closerFrom? at h
    split at h
    · exact (ih h).cons s
    · split at h
      · next hcloses =>
        split at h
        · cases h
          exact ⟨0, s, rfl, hcloses, rfl⟩
        · exact (ih h).cons s
      · exact (ih h).cons s

/-! ## Partners in a body -/

/-- What `spanOf` finds: the statement opens a block, the closer comes after it and closes a block
    of the family, and the middle lies between the two and divides a block of the family. -/
structure Partners (body : List Statement) (b : Block) (position : Nat) (span : Span) : Prop where
  lt_stop : position < span.stop
  closes : ∃ c, body[span.stop]? = some c ∧ c.closes? = some b
  divides : ∀ m, span.middle = some m → position < m ∧ m < span.stop ∧
    ∃ d, body[m]? = some d ∧ d.divides? = some b

theorem Partners.stop_lt {body : List Statement} (h : Partners body b position span) :
    span.stop < body.length := by
  obtain ⟨c, hc, -⟩ := h.closes
  exact (List.getElem?_eq_some_iff.1 hc).1

/-- Where the second part of a block starts, or its closer, lies after the opener. -/
theorem Partners.middle_bounds {body : List Statement} (h : Partners body b position span) :
    position < span.middle.getD span.stop ∧ span.middle.getD span.stop < body.length := by
  cases hm : span.middle with
  | none => exact ⟨h.lt_stop, h.stop_lt⟩
  | some m =>
    obtain ⟨hlow, hhigh, -⟩ := h.divides m hm
    exact ⟨hlow, Nat.lt_trans hhigh h.stop_lt⟩

/-- An opener whose partners are found. -/
theorem partners_of_spanOf {body : List Statement} (h : spanOf body position = .ok span) :
    ∃ s b, body[position]? = some s ∧ s.opens? = some b ∧ Partners body b position span := by
  unfold spanOf at h
  split at h
  · cases h
  · next s hs =>
    split at h
    · cases h
    · next b hb =>
      split at h
      · next span' hspan =>
        cases h
        obtain ⟨hlt, hcloses⟩ := (spanFrom?_stop hspan).getElem?
        refine ⟨s, b, hs, hb, hlt, hcloses, fun m hm => ?_⟩
        rcases spanFrom?_middle hspan with hnone | ⟨m', hm', hstop, hat⟩
        · rw [hnone] at hm
          cases hm
        · rw [hm'] at hm
          cases hm
          exact ⟨hat.getElem?.1, hstop, hat.getElem?.2⟩
      · cases h

theorem partners_of_opener {body : List Statement} {s : Statement} (hs : body[position]? = some s)
    (hopens : s.opens? = some b) (hspan : spanOf body position = .ok span) :
    Partners body b position span := by
  obtain ⟨s', b', hs', hopens', hpartners⟩ := partners_of_spanOf hspan
  rw [hs] at hs'
  cases hs'
  rw [hopens] at hopens'
  cases hopens'
  exact hpartners

/-- The search for partners never finds a block of another family. -/
theorem spanOf_ne_otherBlock {body : List Statement} {closer : String} {place : Nat}
    (h : spanOf body position = .error (.structural (.otherBlock closer place))) : False := by
  unfold spanOf at h
  repeat' split at h
  all_goals cases h

theorem closerOf_ne_otherBlock {body : List Statement} {closer : String} {place : Nat}
    (h : closerOf body position = .error (.structural (.otherBlock closer place))) : False := by
  unfold closerOf at h
  repeat' split at h
  all_goals cases h

/-- A middle marker whose closer is found. -/
theorem lt_of_closerOf {body : List Statement} {stop : Nat}
    (h : closerOf body position = .ok stop) : position < stop ∧ stop < body.length := by
  unfold closerOf at h
  split at h
  · cases h
  · split at h
    · cases h
    · split at h
      · next hstop =>
        cases h
        obtain ⟨hlt, c, hc, -⟩ := (closerFrom?_stop hstop).getElem?
        exact ⟨hlt, (List.getElem?_eq_some_iff.1 hc).1⟩
      · cases h

end StepScript.Block
