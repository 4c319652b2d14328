import Mathlib.Order.Bounds.Defs
import StepScript.Proofs.Tree

/-!
# Matching markers

What the forward scans find in any body, whether its blocks are well nested or not. What a scan
should find is said by counting: the statements between an opener and its closer open and close
blocks of the family equally often, and up to no place among them more are closed than opened
(`Balanced`). The closer of an opener is the first one with balanced statements before it, its
middle the first divider of that kind (`spanOf_eq_ok_iff`).

A scan counts the open blocks, so it is in the middle of statements that close some blocks more than
they open. `Settles` says this for any number of blocks; each step of a scan goes on with the number
that the next statement leaves (`settles_cons`), and the scans are followed by induction on the
statements ahead.
-/

set_option autoImplicit false

namespace StepScript.Block

variable {b : Block} {s : Statement} {ss after : List Statement} {position depth : Nat}

/-! ## Balance -/

/-- How many blocks of the family the statements open. -/
def openings (b : Block) (ss : List Statement) : Nat :=
  ss.countP fun s => s.opens? = some b

/-- How many blocks of the family the statements close. -/
def closings (b : Block) (ss : List Statement) : Nat :=
  ss.countP fun s => s.closes? = some b

/-- After `depth` openers of the family the statements close all its blocks, and they close no block
    before it is opened. -/
structure Settles (b : Block) (depth : Nat) (ss : List Statement) : Prop where
  total : b.closings ss = b.openings ss + depth
  front : ∀ front, front <+: ss → b.closings front ≤ b.openings front + depth

/-- Openers and closers of the family are balanced: there are as many of the one as of the other,
    and nowhere more blocks are closed than opened so far. -/
def Balanced (b : Block) (ss : List Statement) : Prop :=
  b.Settles 0 ss

theorem openings_append (b : Block) (first second : List Statement) :
    b.openings (first ++ second) = b.openings first + b.openings second :=
  List.countP_append

theorem closings_append (b : Block) (first second : List Statement) :
    b.closings (first ++ second) = b.closings first + b.closings second :=
  List.countP_append

theorem openings_cons (b : Block) (s : Statement) (ss : List Statement) :
    b.openings (s :: ss) = b.openings [s] + b.openings ss :=
  openings_append b [s] ss

theorem closings_cons (b : Block) (s : Statement) (ss : List Statement) :
    b.closings (s :: ss) = b.closings [s] + b.closings ss :=
  closings_append b [s] ss

/-- An opener opens one block and closes none. -/
theorem count_opener (h : s.opens? = some b) : b.openings [s] = 1 ∧ b.closings [s] = 0 := by
  simp [openings, closings, h, (Statement.of_opens? h).1]

/-- A closer closes one block and opens none. -/
theorem count_closer (h : s.closes? = some b) : b.openings [s] = 0 ∧ b.closings [s] = 1 := by
  simp [openings, closings, h, (Statement.of_closes? h).1]

/-- Other statements open and close nothing. -/
theorem count_other (hopens : s.opens? ≠ some b) (hcloses : s.closes? ≠ some b) :
    b.openings [s] = 0 ∧ b.closings [s] = 0 := by
  simp [openings, closings, hopens, hcloses]

theorem settles_nil : b.Settles depth [] ↔ depth = 0 := by
  constructor
  · intro h
    have htotal : 0 = 0 + depth := h.total
    omega
  · rintro rfl
    refine ⟨rfl, fun front hfront => ?_⟩
    rw [List.prefix_nil.1 hfront]
    exact Nat.le_refl _

/-- One statement leaves a number of open blocks, which the others close. -/
theorem settles_cons :
    b.Settles depth (s :: ss) ↔
      ∃ rest, depth + b.openings [s] = rest + b.closings [s] ∧ b.Settles rest ss := by
  constructor
  · intro h
    have hone : b.closings [s] ≤ b.openings [s] + depth :=
      h.front [s] (List.cons_prefix_cons.2 ⟨rfl, List.nil_prefix⟩)
    refine ⟨depth + b.openings [s] - b.closings [s], by omega, ?_, ?_⟩
    · have htotal := h.total
      rw [openings_cons, closings_cons] at htotal
      omega
    · intro front hfront
      have hle := h.front (s :: front) (List.cons_prefix_cons.2 ⟨rfl, hfront⟩)
      rw [openings_cons, closings_cons] at hle
      omega
  · rintro ⟨rest, hrest, h⟩
    refine ⟨?_, ?_⟩
    · rw [openings_cons, closings_cons, h.total]
      omega
    · intro front hfront
      rcases List.prefix_cons_iff.1 hfront with rfl | ⟨tail, rfl, htail⟩
      · exact Nat.zero_le _
      · have hle := h.front tail htail
        rw [openings_cons, closings_cons]
        omega

/-! ## Markers ahead -/

/-- A marker stands ahead, `distance` statements on, and those before it close `depth` blocks that
    were opened earlier. The sort of the marker is given by the block that it belongs to. -/
structure Ahead (sort : Statement → Option Block) (b : Block) (depth : Nat)
    (after : List Statement) (distance : Nat) : Prop where
  marker : ∃ s, after[distance]? = some s ∧ sort s = some b
  settles : b.Settles depth (after.take distance)

section

variable {sort : Statement → Option Block} {distance : Nat}

theorem ahead_zero :
    Ahead sort b depth (s :: after) 0 ↔ sort s = some b ∧ depth = 0 := by
  constructor
  · rintro ⟨⟨s', hs', hsort⟩, hsettles⟩
    cases hs'
    exact ⟨hsort, settles_nil.1 hsettles⟩
  · rintro ⟨hsort, rfl⟩
    exact ⟨⟨s, rfl, hsort⟩, settles_nil.2 rfl⟩

/-- A marker further ahead is one behind the next statement, for the blocks that this one leaves. -/
theorem ahead_succ {rest : Nat} (hrest : depth + b.openings [s] = rest + b.closings [s]) :
    Ahead sort b depth (s :: after) (distance + 1) ↔ Ahead sort b rest after distance := by
  have hsettles : b.Settles depth ((s :: after).take (distance + 1)) ↔
      b.Settles rest (after.take distance) := by
    rw [List.take_succ_cons, settles_cons]
    constructor
    · rintro ⟨rest', hrest', h⟩
      obtain rfl : rest' = rest := by omega
      exact h
    · intro h
      exact ⟨rest, hrest, h⟩
  constructor
  · rintro ⟨hmarker, h⟩
    exact ⟨by simpa using hmarker, hsettles.1 h⟩
  · rintro ⟨hmarker, h⟩
    exact ⟨by simpa using hmarker, hsettles.2 h⟩

/-- What stands ahead does not stand behind a closer that closes the last open block. -/
theorem not_ahead_of_closer (h : s.closes? = some b) :
    ¬Ahead sort b 0 (s :: after) (distance + 1) := by
  rintro ⟨-, hsettles⟩
  rw [List.take_succ_cons, settles_cons] at hsettles
  obtain ⟨rest, hrest, -⟩ := hsettles
  obtain ⟨hopenings, hclosings⟩ := count_closer h
  omega

end

/-- A place at a distance is the next one, or further. -/
private theorem exists_distance_iff {P : Nat → Prop} {place : Nat} :
    (∃ distance, place = position + distance ∧ P distance) ↔
      place = position ∧ P 0 ∨ ∃ distance, place = position + 1 + distance ∧ P (distance + 1) := by
  constructor
  · rintro ⟨_ | distance, rfl, h⟩
    · exact Or.inl ⟨rfl, h⟩
    · exact Or.inr ⟨distance, by omega, h⟩
  · rintro (⟨rfl, h⟩ | ⟨distance, rfl, h⟩)
    · exact ⟨0, rfl, h⟩
    · exact ⟨distance + 1, by omega, h⟩

/-- The scan from a middle marker finds the closer ahead that closes the blocks that are open. -/
theorem closerFrom?_eq_some_iff {stop : Nat} :
    b.closerFrom? after position depth = some stop ↔
      ∃ distance, stop = position + distance ∧
        Ahead Statement.closes? b depth after distance := by
  induction after generalizing position depth with
  | nil =>
    constructor
    · intro h
      cases h
    · rintro ⟨_, -, ⟨s, hs, -⟩, -⟩
      simp at hs
  | cons s after ih =>
    rw [exists_distance_iff, ahead_zero, closerFrom?.eq_def]
    by_cases hopens : s.opens? = some b
    · obtain ⟨hopenings, hclosings⟩ := count_opener hopens
      have hrest : depth + b.openings [s] = depth + 1 + b.closings [s] := by omega
      simp [hopens, (Statement.of_opens? hopens).1, ih, ahead_succ hrest]
    by_cases hcloses : s.closes? = some b
    · obtain ⟨hopenings, hclosings⟩ := count_closer hcloses
      cases depth with
      | zero => simp [hopens, hcloses, not_ahead_of_closer hcloses, eq_comm]
      | succ depth =>
        have hrest : depth + 1 + b.openings [s] = depth + b.closings [s] := by omega
        simp [hopens, hcloses, ih, ahead_succ hrest]
    · obtain ⟨hopenings, hclosings⟩ := count_other hopens hcloses
      have hrest : depth + b.openings [s] = depth + b.closings [s] := by omega
      simp [hopens, hcloses, ih, ahead_succ hrest]

/-- A middle that was met before is the one that the scan gives. -/
theorem middle_of_spanFrom? {m : Nat} {span : Span}
    (h : b.spanFrom? after position depth (some m) = some span) : span.middle = some m := by
  induction after generalizing position depth with
  | nil => cases h
  | cons s after ih =>
    unfold spanFrom? at h
    split at h
    · exact ih h
    · split at h
      · split at h
        · cases h
          rfl
        · exact ih h
      · simp only [reduceCtorEq, false_and, and_false, if_false] at h
        exact ih h

theorem isLeast_zero_iff {P : Nat → Prop} {distance : Nat} (h : P 0) :
    IsLeast {n | P n} distance ↔ distance = 0 := by
  constructor
  · intro hleast
    exact Nat.le_zero.1 (hleast.2 h)
  · rintro rfl
    exact ⟨h, fun n _ => Nat.zero_le n⟩

theorem isLeast_succ_iff {P Q : Nat → Prop} {distance : Nat} (h : ¬P 0)
    (hPQ : ∀ n, P (n + 1) ↔ Q n) :
    IsLeast {n | P n} (distance + 1) ↔ IsLeast {n | Q n} distance := by
  constructor
  · rintro ⟨hP, hle⟩
    exact ⟨(hPQ distance).1 hP, fun n hQ => Nat.le_of_succ_le_succ (hle ((hPQ n).2 hQ))⟩
  · rintro ⟨hQ, hle⟩
    refine ⟨(hPQ distance).2 hQ, fun n hP => ?_⟩
    rcases n with _ | n
    · exact absurd hP h
    · exact Nat.succ_le_succ (hle ((hPQ n).1 hP))

/-- The scan from an opener gives the first divider ahead that stands inside of no other block of
    the family, if there is one before the closer. -/
theorem middle_eq_some_iff {span : Span} {place : Nat}
    (h : b.spanFrom? after position depth none = some span) :
    span.middle = some place ↔
      ∃ distance, place = position + distance ∧ place < span.stop ∧
        IsLeast {n | Ahead Statement.divides? b depth after n} distance := by
  induction after generalizing position depth with
  | nil => cases h
  | cons s after ih =>
    -- The first divider is not the next statement: it is the first one behind it.
    have later {rest : Nat} (hrest : depth + b.openings [s] = rest + b.closings [s])
        (hzero : ¬Ahead Statement.divides? b depth (s :: after) 0)
        (hafter : b.spanFrom? after (position + 1) rest none = some span) :
        span.middle = some place ↔
          ∃ distance, place = position + distance ∧ place < span.stop ∧
            IsLeast {n | Ahead Statement.divides? b depth (s :: after) n} distance := by
      rw [ih hafter]
      constructor
      · rintro ⟨distance, rfl, hlt, hleast⟩
        exact ⟨distance + 1, by omega, hlt,
          (isLeast_succ_iff hzero fun _ => ahead_succ hrest).2 hleast⟩
      · rintro ⟨_ | distance, rfl, hlt, hleast⟩
        · exact absurd hleast.1 hzero
        · exact ⟨distance, by omega, hlt,
            (isLeast_succ_iff hzero fun _ => ahead_succ hrest).1 hleast⟩
    by_cases hopens : s.opens? = some b
    · obtain ⟨hopenings, hclosings⟩ := count_opener hopens
      rw [spanFrom?_opener hopens] at h
      refine later (by omega) ?_ h
      rw [ahead_zero, (Statement.of_opens? hopens).2]
      simp
    by_cases hcloses : s.closes? = some b
    · obtain ⟨hopenings, hclosings⟩ := count_closer hcloses
      rcases depth with _ | depth
      · rw [spanFrom?_closer hcloses] at h
        cases h
        constructor
        · intro hnone
          cases hnone
        · rintro ⟨distance, rfl, hlt, -⟩
          exact absurd hlt (by simp)
      · rw [spanFrom?_inner_closer hcloses] at h
        refine later (by omega) ?_ h
        simp [ahead_zero]
    obtain ⟨hopenings, hclosings⟩ := count_other hopens hcloses
    by_cases hmiddle : s.divides? = some b ∧ depth = 0
    · obtain ⟨hdivides, rfl⟩ := hmiddle
      rw [spanFrom?_middle_marker hdivides] at h
      have hstop : position < span.stop := by
        obtain ⟨distance, -, -, -, hstop⟩ := spanFrom?_stop h
        omega
      rw [middle_of_spanFrom? h]
      simp only [isLeast_zero_iff (ahead_zero.2 ⟨hdivides, rfl⟩)]
      constructor
      · intro hplace
        cases hplace
        exact ⟨0, rfl, hstop, rfl⟩
      · rintro ⟨distance, rfl, -, rfl⟩
        rfl
    · rw [spanFrom?_other hopens hcloses (not_and_or.1 hmiddle).symm] at h
      exact later (by omega) (fun hzero => hmiddle (ahead_zero.1 hzero)) h

/-! ## Markers in a body -/

/-- The statements between two places of a body. -/
def between (body : List Statement) (start place : Nat) : List Statement :=
  (body.drop (start + 1)).take (place - (start + 1))

/-- The statement at a place opens a block of the family. -/
def OpensAt (b : Block) (body : List Statement) (start : Nat) : Prop :=
  ∃ o, body[start]? = some o ∧ o.opens? = some b

/-- A marker of the block that a statement opens or divides: it stands after the statement, and
    between the two the openers and closers of the family are balanced. The sort of the marker is
    given by the block that it belongs to. -/
structure MarksAt (sort : Statement → Option Block) (b : Block) (body : List Statement)
    (start place : Nat) : Prop where
  lt : start < place
  marker : ∃ s, body[place]? = some s ∧ sort s = some b
  balanced : b.Balanced (between body start place)

section

variable {sort : Statement → Option Block} {body : List Statement}
  {start place middle stop : Nat} {span : Span}

/-- A marker ahead of a place is a marker after it. -/
theorem ahead_drop_iff {distance : Nat} :
    Ahead sort b 0 (body.drop (start + 1)) distance ↔
      MarksAt sort b body start (start + 1 + distance) := by
  have hbetween : between body start (start + 1 + distance)
      = (body.drop (start + 1)).take distance := by
    rw [between, Nat.add_sub_cancel_left]
  constructor
  · rintro ⟨hmarker, hsettles⟩
    rw [List.getElem?_drop] at hmarker
    exact ⟨by omega, hmarker, hbetween ▸ hsettles⟩
  · rintro ⟨-, hmarker, hbalanced⟩
    rw [hbetween] at hbalanced
    exact ⟨by rwa [List.getElem?_drop], hbalanced⟩

theorem OpensAt.eq {b' : Block} (h : b.OpensAt body start) (h' : b'.OpensAt body start) :
    b = b' := by
  obtain ⟨o, ho, hopens⟩ := h
  obtain ⟨o', ho', hopens'⟩ := h'
  rw [ho] at ho'
  cases ho'
  exact Option.some.inj (hopens.symm.trans hopens')

theorem between_isPrefix (body : List Statement) (start : Nat) (h : place ≤ stop) :
    between body start place <+: between body start stop :=
  List.take_prefix_take_left (by omega)

/-- The statements between two places, cut at a third one. -/
theorem between_split (hstart : start < middle) (hstop : middle < stop)
    (hs : body[middle]? = some s) :
    between body start stop = between body start middle ++ s :: between body middle stop := by
  have hlength : stop - (start + 1)
      = (middle - (start + 1)) + (stop - (middle + 1) + 1) := by omega
  have hdrop : (body.drop (start + 1)).drop (middle - (start + 1))
      = s :: body.drop (middle + 1) := by
    rw [List.drop_drop, drop_eq_cons_iff]
    have hsum : start + 1 + (middle - (start + 1)) = middle := by omega
    rw [hsum]
    exact ⟨hs, rfl⟩
  rw [between, hlength, List.take_add, hdrop, List.take_succ_cons]
  rfl

/-- The closer of an opener is the closer of the divider that belongs to it. -/
theorem MarksAt.closes_middle (hmiddle : MarksAt Statement.divides? b body start middle)
    (hstop : MarksAt Statement.closes? b body start stop) (hlt : middle < stop) :
    MarksAt Statement.closes? b body middle stop := by
  obtain ⟨d, hd, hdivides⟩ := hmiddle.marker
  obtain ⟨hopens, hcloses⟩ := Statement.of_divides? hdivides
  obtain ⟨hopenings, hclosings⟩ :=
    count_other (b := b) (by simp [hopens] : d.opens? ≠ some b) (by simp [hcloses])
  have hsplit := between_split hmiddle.lt hlt hd
  have hfirst := hmiddle.balanced.total
  -- The first part is balanced, so what holds of the whole holds of the second part.
  have hcount (tail : List Statement) :
      b.openings (between body start middle ++ d :: tail)
          = b.openings (between body start middle) + b.openings tail ∧
        b.closings (between body start middle ++ d :: tail)
          = b.closings (between body start middle) + b.closings tail := by
    rw [openings_append, closings_append, openings_cons, closings_cons]
    omega
  refine ⟨hlt, hstop.marker, ?_, fun front hfront => ?_⟩
  · have htotal := hstop.balanced.total
    rw [hsplit] at htotal
    obtain ⟨hopenings', hclosings'⟩ := hcount (between body middle stop)
    omega
  · have hprefix : between body start middle ++ d :: front <+: between body start stop := by
      rw [hsplit]
      exact (List.prefix_append_right_inj _).2 (List.cons_prefix_cons.2 ⟨rfl, hfront⟩)
    have hle := hstop.balanced.front _ hprefix
    obtain ⟨hopenings', hclosings'⟩ := hcount front
    omega

/-- Two openers of a family have their closers apart: one block ends before the other opens, or lies
    inside of it. -/
theorem MarksAt.apart {start' stop' : Nat} (hopens : b.OpensAt body start')
    (h : MarksAt Statement.closes? b body start stop)
    (h' : MarksAt Statement.closes? b body start' stop') (hlt : start < start') :
    stop < start' ∨ stop' < stop := by
  by_contra hcross
  obtain ⟨hle, hle'⟩ := not_or.1 hcross
  obtain ⟨o, ho, hopens⟩ := hopens
  have hne : start' ≠ stop := by
    rintro rfl
    obtain ⟨c, hc, hcloses⟩ := h.marker
    rw [ho] at hc
    cases hc
    rw [(Statement.of_opens? hopens).1] at hcloses
    cases hcloses
  -- The inner opener is not closed before the outer closer, nor is anything before it.
  have htotal := h.balanced.total
  rw [between_split hlt (by omega) ho, openings_append, closings_append, openings_cons,
    closings_cons] at htotal
  have hbefore := h.balanced.front _ (between_isPrefix body start (show start' ≤ stop by omega))
  have hinside := h'.balanced.front _ (between_isPrefix body start' (show stop ≤ stop' by omega))
  obtain ⟨hopenings, hclosings⟩ := count_opener hopens
  omega

/-! ## Partners -/

/-- The scan from a middle marker finds the closer that has balanced statements before it. -/
theorem closerOf_eq_ok_iff :
    closerOf body middle = .ok stop ↔
      ∃ b, (∃ d, body[middle]? = some d ∧ d.divides? = some b) ∧
        MarksAt Statement.closes? b body middle stop := by
  have hscan (b : Block) :
      b.closerFrom? (body.drop (middle + 1)) (middle + 1) 0 = some stop ↔
        MarksAt Statement.closes? b body middle stop := by
    rw [closerFrom?_eq_some_iff]
    constructor
    · rintro ⟨distance, rfl, hahead⟩
      exact ahead_drop_iff.1 hahead
    · intro h
      obtain ⟨distance, rfl⟩ : ∃ distance, stop = middle + 1 + distance :=
        Nat.exists_eq_add_of_le h.lt
      exact ⟨distance, rfl, ahead_drop_iff.2 h⟩
  constructor
  · intro h
    unfold closerOf at h
    split at h
    · cases h
    next d hd =>
    split at h
    · cases h
    next b hdivides =>
    split at h
    · next hstop =>
      cases h
      exact ⟨b, ⟨d, hd, hdivides⟩, (hscan b).1 hstop⟩
    · cases h
  · rintro ⟨b, ⟨d, hd, hdivides⟩, h⟩
    simp only [closerOf, hd, hdivides, (hscan b).2 h]

/-- The partners of an opener: its closer, and the first divider of the block before the closer, if
    there is one. -/
structure IsSpan (b : Block) (body : List Statement) (start : Nat) (span : Span) : Prop where
  opens : b.OpensAt body start
  closes : MarksAt Statement.closes? b body start span.stop
  middle : ∀ m, span.middle = some m ↔
    m < span.stop ∧ IsLeast {n | MarksAt Statement.divides? b body start n} m

/-- There is one middle at most, and one closer. -/
theorem IsSpan.ext {span' : Span} (h : IsSpan b body start span) (h' : IsSpan b body start span')
    (hstop : span.stop = span'.stop) : span = span' := by
  have hmiddle : span.middle = span'.middle := by
    refine Option.ext fun m => ?_
    rw [h.middle, h'.middle, hstop]
  rcases span with ⟨m, stop⟩
  rcases span' with ⟨m', stop'⟩
  cases hmiddle
  cases hstop
  rfl

/-- What the scan from an opener finds are its partners. -/
theorem isSpan_of_spanFrom? (hopens : b.OpensAt body start)
    (h : b.spanFrom? (body.drop (start + 1)) (start + 1) 0 none = some span) :
    IsSpan b body start span := by
  refine ⟨hopens, ?_, fun m => ?_⟩
  · have hstop : b.closerFrom? (body.drop (start + 1)) (start + 1) 0 = some span.stop := by
      rw [closerFrom?_eq_map b _ _ _ none, h]
      rfl
    obtain ⟨distance, heq, hahead⟩ := closerFrom?_eq_some_iff.1 hstop
    rw [heq]
    exact ahead_drop_iff.1 hahead
  · rw [middle_eq_some_iff h]
    constructor
    · rintro ⟨distance, rfl, hlt, hahead, hleast⟩
      refine ⟨hlt, ahead_drop_iff.1 hahead, fun n hn => ?_⟩
      obtain ⟨distance', rfl⟩ := Nat.exists_eq_add_of_le hn.lt
      exact Nat.add_le_add_left (hleast (ahead_drop_iff.2 hn)) (start + 1)
    · rintro ⟨hlt, hm, hleast⟩
      obtain ⟨distance, rfl⟩ := Nat.exists_eq_add_of_le hm.lt
      refine ⟨distance, rfl, hlt, ahead_drop_iff.2 hm, fun n hn => ?_⟩
      exact Nat.le_of_add_le_add_left (hleast (ahead_drop_iff.1 hn))

/-- An opener that has a closer finds its partners. -/
theorem exists_spanOf (hopens : b.OpensAt body start)
    (hcloses : MarksAt Statement.closes? b body start stop) :
    ∃ span, spanOf body start = .ok span ∧ IsSpan b body start span ∧ span.stop = stop := by
  obtain ⟨distance, rfl⟩ := Nat.exists_eq_add_of_le hcloses.lt
  have hcloser :
      b.closerFrom? (body.drop (start + 1)) (start + 1) 0 = some (start + 1 + distance) :=
    closerFrom?_eq_some_iff.2 ⟨distance, rfl, ahead_drop_iff.2 hcloses⟩
  rw [closerFrom?_eq_map b _ _ _ none, Option.map_eq_some_iff] at hcloser
  obtain ⟨span, hspan, hstop⟩ := hcloser
  refine ⟨span, ?_, isSpan_of_spanFrom? hopens hspan, hstop⟩
  obtain ⟨o, ho, hopens⟩ := hopens
  simp only [spanOf, ho, hopens, hspan]

/-- **An opener finds its partners, and finds them whenever it has any.** -/
theorem spanOf_eq_ok_iff : spanOf body start = .ok span ↔ ∃ b, IsSpan b body start span := by
  constructor
  · intro h
    unfold spanOf at h
    split at h
    · cases h
    next o ho =>
    split at h
    · cases h
    next b hopens =>
    split at h
    · next hspan =>
      cases h
      exact ⟨b, isSpan_of_spanFrom? ⟨o, ho, hopens⟩ hspan⟩
    · cases h
  · rintro ⟨b, h⟩
    obtain ⟨found, hfound, hspan, hstop⟩ := exists_spanOf h.opens h.closes
    rw [hfound, hspan.ext h hstop]

/-- **Markers are matched consistently in every body.** The partners that an opener finds are its
    closer, with balanced statements of the family in between, and the first divider that stands
    inside of no other block of the family, if there is one before the closer; the divider finds the
    same closer. Two openers of a family never share a closer: one block ends before the other
    opens, or contains it. And a position is refused exactly when no block that it opens is closed
    anywhere after it. -/
theorem spanOf_consistent (body : List Statement) :
    (∀ start span, spanOf body start = .ok span →
      ∃ b, b.OpensAt body start ∧ MarksAt Statement.closes? b body start span.stop ∧
        (∀ m, span.middle = some m ↔
          m < span.stop ∧ IsLeast {n | MarksAt Statement.divides? b body start n} m) ∧
        ∀ m, span.middle = some m → closerOf body m = .ok span.stop) ∧
    (∀ (b : Block) start start' span span', b.OpensAt body start → b.OpensAt body start' →
      start < start' → spanOf body start = .ok span → spanOf body start' = .ok span' →
        span.stop < start' ∨ span'.stop < span.stop) ∧
    ∀ start, (∃ fault, spanOf body start = .error fault) ↔
      ¬∃ (b : Block) (stop : Nat),
        b.OpensAt body start ∧ MarksAt Statement.closes? b body start stop := by
  refine ⟨?_, ?_, ?_⟩
  · intro start span h
    obtain ⟨b, hspan⟩ := spanOf_eq_ok_iff.1 h
    refine ⟨b, hspan.opens, hspan.closes, hspan.middle, fun m hm => ?_⟩
    obtain ⟨hlt, hmiddle, -⟩ := (hspan.middle m).1 hm
    exact closerOf_eq_ok_iff.2 ⟨b, hmiddle.marker, hmiddle.closes_middle hspan.closes hlt⟩
  · intro b start start' span span' hopens hopens' hlt h h'
    obtain ⟨b₁, hspan⟩ := spanOf_eq_ok_iff.1 h
    obtain ⟨b₂, hspan'⟩ := spanOf_eq_ok_iff.1 h'
    obtain rfl := hopens.eq hspan.opens
    obtain rfl := hopens'.eq hspan'.opens
    exact hspan.closes.apart hopens' hspan'.closes hlt
  · intro start
    constructor
    · rintro ⟨fault, hfault⟩ ⟨b, stop, hopens, hcloses⟩
      obtain ⟨span, hspan, -⟩ := exists_spanOf hopens hcloses
      rw [hspan] at hfault
      cases hfault
    · intro hnone
      rcases hspan : spanOf body start with fault | span
      · exact ⟨fault, rfl⟩
      · obtain ⟨b, h⟩ := spanOf_eq_ok_iff.1 hspan
        exact absurd ⟨b, span.stop, h.opens, h.closes⟩ hnone

/-- Markers of other families do not count, even where blocks cross. -/
example :
    spanOf [.ifThen "x", .whileLoop "y", .orElse, .endIf, .orElse, .endWhile] 0 = .ok ⟨some 2, 3⟩ ∧
      spanOf [.ifThen "x", .whileLoop "y", .orElse, .endIf, .orElse, .endWhile] 1 = .ok ⟨none, 5⟩ :=
  ⟨rfl, rfl⟩

end

end StepScript.Block
