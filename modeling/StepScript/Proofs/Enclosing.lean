import Mathlib.Data.List.Sort
import StepScript.Proofs.FrameOrder
import StepScript.Proofs.Nesting
import StepScript.Proofs.Regions

/-!
# Active blocks of well-nested programs

In a well-nested program the active blocks are, at all times, the loops and protected blocks that
enclose the current position. The only freedom is at the end of a protected block with a handler,
which is still active there when no fault has left it.

Whether a region covers a position changes only at its own markers, so a statement that moves
between the markers of one region leaves all others alone (`Enclosed.transfer`); statements that
leave several blocks at once keep those that were opened before the one they end at
(`Enclosed.unwind`).
-/

set_option autoImplicit false

namespace StepScript

variable {σ : Type}

/-! ## Places of one region seen from another -/

namespace Region

/-- A marker of the region stands at the position. -/
def MarkedAt (q : Region) (i : Nat) : Prop :=
  i = q.start ∨ i = q.last ∨ i = q.stop

/-- The position is that of a marker of the region, or the one after it. -/
def Border (q : Region) (i : Nat) : Prop :=
  q.MarkedAt i ∨ ∃ j, q.MarkedAt j ∧ i = j + 1

/-- The end of a block that is divided: its second part leads here. -/
def EndsAt (r : Region) (i : Nat) : Prop :=
  r.middle ≠ none ∧ r.stop = i

end Region

namespace Laid

variable {body : List Statement} {rs : List Region} {r q : Region} {i j : Nat}

/-- A region does not tell the borders of another one apart. -/
theorem covers_border (h : Laid body rs) (hr : r ∈ rs) (hq : q ∈ rs) (hne : r ≠ q)
    (hi : q.Border i) (hj : q.Border j) : r.covers i = true ↔ r.covers j = true := by
  obtain ⟨hr₁, hr₂, -⟩ := h.sound r hr
  obtain ⟨hq₁, hq₂, -⟩ := h.sound q hq
  have hborder {k : Nat} (hk : q.Border k) : k = q.start ∨ k = q.start + 1 ∨ k = q.last ∨
      k = q.last + 1 ∨ k = q.stop ∨ k = q.stop + 1 := by
    rcases hk with hk | ⟨k', hk, rfl⟩
    · rcases hk with rfl | rfl | rfl <;> simp
    · rcases hk with rfl | rfl | rfl <;> simp
  have hi' := hborder hi
  have hj' := hborder hj
  simp only [Region.covers_iff]
  rcases h.related hr hq with heq | (hpre | ⟨hin₁, hin₂, hin₃⟩) | (hpre | ⟨hin₁, hin₂, hin₃⟩)
  · exact (hne heq).elim
  · omega
  · omega
  · omega
  · omega

/-- Seen from inside of a region, the regions that cover the places where it is left are those
    that were opened before it. -/
theorem covers_exit (h : Laid body rs) (hr : r ∈ rs) (hq : q ∈ rs) (hne : r ≠ q)
    (hcovers : q.covers i = true) (hj : j = q.last + 1 ∨ j = q.stop ∨ j = q.stop + 1) :
    r.covers j = true ↔ r.covers i = true ∧ r.start < q.start := by
  obtain ⟨hr₁, hr₂, -⟩ := h.sound r hr
  obtain ⟨hq₁, hq₂, -⟩ := h.sound q hq
  simp only [Region.covers_iff] at hcovers ⊢
  rcases h.related hr hq with heq | (hpre | ⟨hin₁, hin₂, hin₃⟩) | (hpre | ⟨hin₁, hin₂, hin₃⟩)
  · exact (hne heq).elim
  · omega
  · omega
  · omega
  · omega

/-- No region ends at a marker of another one. -/
theorem stop_ne (h : Laid body rs) (hr : r ∈ rs) (hq : q ∈ rs) (hne : r ≠ q)
    (hi : q.MarkedAt i) : r.stop ≠ i := by
  obtain ⟨hr₁, hr₂, -⟩ := h.sound r hr
  obtain ⟨hq₁, hq₂, -⟩ := h.sound q hq
  unfold Region.MarkedAt at hi
  rcases h.related hr hq with heq | (hpre | ⟨hin₁, hin₂, hin₃⟩) | (hpre | ⟨hin₁, hin₂, hin₃⟩)
  · exact (hne heq).elim
  · omega
  · omega
  · omega
  · omega

end Laid

/-! ## The invariant -/

/-- The regions of the active blocks are those that cover the position, up to blocks with a handler
    that end there. -/
structure Enclosed (rs : List Region) (ip : Nat) (active : List Region) : Prop where
  complete : ∀ r ∈ rs, r.block ≠ .ifThen → r.covers ip = true → r ∈ active
  covered : ∀ r ∈ active, r ∈ rs ∧ r.block ≠ .ifThen ∧ (r.covers ip = true ∨ r.EndsAt ip)

namespace Enclosed

variable {body : List Statement} {rs active active' : List Region} {r q : Region} {ip ip' : Nat}

/-- A move between the markers of one region changes at most whether this one is active. -/
theorem transfer (h : Enclosed rs ip active) (hlaid : Laid body rs) (hq : q ∈ rs)
    (hip : q.MarkedAt ip) (hip' : q.Border ip')
    (hothers : ∀ r, r ≠ q → (r ∈ active' ↔ r ∈ active))
    (hself : q.block ≠ .ifThen → q.covers ip' = true → q ∈ active')
    (hself' : q ∈ active' → q.block ≠ .ifThen ∧ (q.covers ip' = true ∨ q.EndsAt ip')) :
    Enclosed rs ip' active' := by
  constructor
  · intro r hr hblock hcovers
    by_cases hne : r = q
    · subst hne
      exact hself hblock hcovers
    · rw [hothers r hne]
      exact h.complete r hr hblock ((hlaid.covers_border hr hq hne (Or.inl hip) hip').2 hcovers)
  · intro r hr
    by_cases hne : r = q
    · subst hne
      exact ⟨hq, hself' hr⟩
    · obtain ⟨hmem, hblock, hcovers⟩ := h.covered r ((hothers r hne).1 hr)
      refine ⟨hmem, hblock, Or.inl ?_⟩
      rcases hcovers with hcovers | ⟨-, hstop⟩
      · exact (hlaid.covers_border hmem hq hne (Or.inl hip) hip').1 hcovers
      · exact (hlaid.stop_ne hmem hq hne hip hstop).elim

/-- A statement between markers changes nothing. -/
theorem advance (h : Enclosed rs ip active)
    (hstart : ∀ r ∈ rs, r.block ≠ .ifThen → ip ≠ r.start)
    (hlast : ∀ r ∈ rs, r.block ≠ .ifThen → ip ≠ r.last)
    (hstop : ∀ r ∈ rs, r.block ≠ .ifThen → ip ≠ r.stop) : Enclosed rs (ip + 1) active := by
  have hiff {r : Region} (hr : r ∈ rs) (hblock : r.block ≠ .ifThen) :
      r.covers (ip + 1) = true ↔ r.covers ip = true := by
    have h₁ := hstart r hr hblock
    have h₂ := hlast r hr hblock
    simp only [Region.covers_iff]
    omega
  constructor
  · exact fun r hr hblock hcovers => h.complete r hr hblock ((hiff hr hblock).1 hcovers)
  · intro r hr
    obtain ⟨hmem, hblock, hcovers | ⟨-, hends⟩⟩ := h.covered r hr
    · exact ⟨hmem, hblock, Or.inl ((hiff hmem hblock).2 hcovers)⟩
    · exact (hstop r hmem hblock hends.symm).elim

/-- Blocks left up to one of them: those opened before it stay, and it may stay itself. -/
theorem unwind {outer : List Region} (h : Enclosed rs ip active) (hlaid : Laid body rs)
    (hdescending : active.Pairwise fun inner outer => outer.start < inner.start)
    (hsuffix : q :: outer <:+ active) (hcovers : q.covers ip = true)
    (hip' : ip' = q.last + 1 ∨ ip' = q.stop ∨ ip' = q.stop + 1)
    (hnone : ∀ r ∈ active, ¬r.EndsAt ip) :
    Enclosed rs ip' (if q.covers ip' = true then q :: outer else outer) := by
  obtain ⟨hq, hqblock, -⟩ := h.covered q (hsuffix.subset List.mem_cons_self)
  have hbelow : ∀ r ∈ outer, r.start < q.start :=
    (List.pairwise_cons.1 (hdescending.sublist hsuffix.sublist)).1
  -- The active blocks opened before the one that is left are those around it.
  have houter {r : Region} (hr : r ∈ active) (hlt : r.start < q.start) : r ∈ outer := by
    obtain ⟨inner, rfl⟩ := hsuffix
    rcases List.mem_append.1 hr with hr | hr
    · have := (List.pairwise_append.1 hdescending).2.2 r hr q List.mem_cons_self
      omega
    · rcases List.mem_cons.1 hr with rfl | hr
      · omega
      · exact hr
  have hexit {r : Region} (hr : r ∈ rs) (hne : r ≠ q) := hlaid.covers_exit hr hq hne hcovers hip'
  constructor
  · intro r hr hblock hcovers'
    by_cases hne : r = q
    · subst hne
      rw [if_pos hcovers']
      exact List.mem_cons_self
    · obtain ⟨hcov, hlt⟩ := (hexit hr hne).1 hcovers'
      have hmem := houter (h.complete r hr hblock hcov) hlt
      split
      · exact List.mem_cons_of_mem _ hmem
      · exact hmem
  · have hstay : ∀ r ∈ outer,
        r ∈ rs ∧ r.block ≠ .ifThen ∧ (r.covers ip' = true ∨ r.EndsAt ip') := by
      intro r hr
      have hactive : r ∈ active := hsuffix.subset (List.mem_cons_of_mem _ hr)
      obtain ⟨hmem, hblock, hcov | hends⟩ := h.covered r hactive
      · have hlt := hbelow r hr
        have hne : r ≠ q := by
          rintro rfl
          omega
        exact ⟨hmem, hblock, Or.inl ((hexit hmem hne).2 ⟨hcov, hlt⟩)⟩
      · exact (hnone r hactive hends).elim
    split
    · next hcovers' =>
      exact List.forall_mem_cons.2 ⟨⟨hq, hqblock, Or.inl hcovers'⟩, hstay⟩
    · exact hstay

/-- A block that is closed at the position is the innermost active one. -/
theorem exists_outer_of_stop (h : Enclosed rs ip active) (hlaid : Laid body rs)
    (hdescending : active.Pairwise fun inner outer => outer.start < inner.start) (hq : q ∈ active)
    (hstop : q.stop = ip) : ∃ outer, active = q :: outer := by
  cases active with
  | nil => cases hq
  | cons r outer =>
    by_cases hne : r = q
    · exact ⟨outer, by rw [hne]⟩
    · exfalso
      have hqin : q ∈ outer := (List.mem_cons.1 hq).resolve_left fun heq => hne heq.symm
      have hlt := (List.pairwise_cons.1 hdescending).1 q hqin
      obtain ⟨hr, -, hcovers⟩ := h.covered r List.mem_cons_self
      obtain ⟨hq', -, -⟩ := h.covered q hq
      obtain ⟨hr₁, hr₂, -⟩ := hlaid.sound r hr
      obtain ⟨hq₁, hq₂, -⟩ := hlaid.sound q hq'
      have hends := hlaid.stop_ne hr hq' hne (Or.inr (Or.inr hstop.symm))
      rcases hcovers with hcovers | ⟨-, hends'⟩
      · rw [Region.covers_iff] at hcovers
        rcases hlaid.related hr hq' with heq | (hpre | ⟨hin₁, hin₂, -⟩) | (hpre | ⟨hin₁, hin₂, -⟩)
        · exact hne heq
        · omega
        · omega
        · omega
        · omega
      · exact hends hends'

/-- Only at the closer of a protected block can an active block be one that ends there. -/
theorem not_endsAt {s : Statement} (h : Enclosed rs ip active) (hlaid : Laid body rs)
    (hs : body[ip]? = some s) (hcloses : s.closes? ≠ some .tryBlock) :
    ∀ r ∈ active, ¬r.EndsAt ip := by
  rintro r hr ⟨hmiddle, rfl⟩
  obtain ⟨hmem, hblock, -⟩ := h.covered r hr
  have hsound := hlaid.sound r hmem
  obtain ⟨c, hc, hcloses'⟩ := hsound.closes
  rw [hs, Option.some.injEq] at hc
  rw [← hc, hsound.block_of_middle hmiddle hblock] at hcloses'
  exact hcloses hcloses'

end Enclosed

/-! ## Frames -/

/-- Where the faults of an active block are handled. -/
def FrameKind.handler? : FrameKind → Option Nat
  | .tryBlock handler => handler
  | _ => none

/-- The region that an active block says it has. -/
def Frame.region (f : Frame) : Region :=
  ⟨f.kind.block, f.start, f.kind.handler?, f.stop⟩

theorem FrameKind.block_ne_ifThen (kind : FrameKind) : kind.block ≠ .ifThen := by
  cases kind <;> simp [block]

namespace Laid

variable {body : List Statement} {rs : List Region} {q : Region}

/-- The span that is found at an opener is that of its region. -/
theorem opener_span {i : Nat} {s : Statement} {b : Block} {span : Span} (h : Laid body rs)
    (hs : body[i]? = some s) (hopens : s.opens? = some b)
    (hspan : Block.spanOf body i = .ok span) :
    ∃ q ∈ rs, q.start = i ∧ q.block = b ∧ span = ⟨q.middle, q.stop⟩ := by
  obtain ⟨q, hq, rfl, hblock⟩ := h.opener hs hopens
  rw [(h.sound q hq).span, Except.ok.injEq] at hspan
  exact ⟨q, hq, rfl, hblock, hspan.symm⟩

/-- The closer that is found at a middle marker is that of its region. -/
theorem divider_stop {i stop : Nat} {s : Statement} {b : Block} (h : Laid body rs)
    (hs : body[i]? = some s) (hdivides : s.divides? = some b)
    (hstop : Block.closerOf body i = .ok stop) :
    ∃ q ∈ rs, q.middle = some i ∧ q.block = b ∧ stop = q.stop := by
  obtain ⟨q, hq, hmiddle, hblock⟩ := h.divider hs hdivides
  rw [((h.sound q hq).divides _ hmiddle).1, Except.ok.injEq] at hstop
  exact ⟨q, hq, hmiddle, hblock, hstop.symm⟩

/-- A frame that fits a region has that region. -/
theorem frame_region (h : Laid body rs) (hq : q ∈ rs) {kind : FrameKind}
    (hblock : q.block = kind.block) (hfits : kind.Fits ⟨q.middle, q.stop⟩) :
    Frame.region ⟨kind, q.start, q.stop⟩ = q := by
  have hmiddle : kind.handler? = q.middle := by
    cases kind with
    | tryBlock handler => exact hfits
    | _ => exact ((h.sound q hq).middle_of_isLoop (by rw [hblock]; rfl)).symm
  obtain ⟨b, start, middle, stop⟩ := q
  simp only [Frame.region, hmiddle] at hblock ⊢
  rw [hblock]

/-- A frame that matches its opener has the region of that opener. -/
theorem region_mem (h : Laid body rs) {f : Frame} (hf : f.Matches body) : f.region ∈ rs := by
  obtain ⟨s, span, hs, hopens, hspan, hstop, hfits⟩ := hf
  obtain ⟨q, hq, hstart, hblock, rfl⟩ := h.opener_span hs hopens hspan
  obtain ⟨kind, start, stop⟩ := f
  obtain rfl : q.start = start := hstart
  obtain rfl : stop = q.stop := hstop
  rw [h.frame_region hq hblock hfits]
  exact hq

end Laid

/-! ## Steps -/

namespace Enclosed

variable {body : List Statement} {rs : List Region} {q : Region} {ip : Nat} {frames : List Frame}
  {s : Statement} {move : Move}

/-- The regions of frames in order are in order. -/
theorem descending_regions (hordered : FramesOrdered body ip frames) :
    (frames.map Frame.region).Pairwise fun inner outer => outer.start < inner.start :=
  List.pairwise_map.2 hordered.descending

/-- The block that is closed at the position is left. -/
theorem leave {frame : Frame} {outer : List Frame} {ip' : Nat}
    (h : Enclosed rs ip ((frame :: outer).map Frame.region)) (hlaid : Laid body rs)
    (hordered : FramesOrdered body ip (frame :: outer)) (hstop : frame.stop = ip)
    (hip' : frame.region.Border ip') (hcovers : frame.region.covers ip' = false) :
    Enclosed rs ip' (outer.map Frame.region) := by
  have hq : frame.region ∈ rs := (h.covered _ List.mem_cons_self).1
  have hbelow := (List.pairwise_cons.1 (descending_regions hordered)).1
  have hnot : frame.region ∉ outer.map Frame.region := by
    intro hmem
    exact Nat.lt_irrefl _ (hbelow _ hmem)
  refine h.transfer hlaid hq (Or.inr (Or.inr hstop.symm)) hip' ?_ ?_ ?_
  · intro r hne
    rw [List.map_cons, List.mem_cons, or_iff_right hne]
  · intro _ hcov
    rw [hcovers] at hcov
    cases hcov
  · exact fun hmem => (hnot hmem).elim

/-- The innermost block is closed at the position, and the program goes on after it. -/
theorem close {frame : Frame} {outer : List Frame}
    (h : Enclosed rs ip ((frame :: outer).map Frame.region)) (hlaid : Laid body rs)
    (hordered : FramesOrdered body ip (frame :: outer)) (hstop : frame.stop = ip) :
    Enclosed rs (ip + 1) (outer.map Frame.region) := by
  refine h.leave hlaid hordered hstop (Or.inr ⟨ip, Or.inr (Or.inr hstop.symm), rfl⟩) ?_
  have hlast : frame.region.last ≤ frame.stop :=
    (hlaid.sound _ (h.covered _ List.mem_cons_self).1).last_le
  rw [← Bool.not_eq_true, Region.covers_iff]
  omega

/-- The next pass through the innermost block, a loop that is closed at the position. -/
theorem repeat_pass {frame : Frame} {outer : List Frame}
    (h : Enclosed rs ip ((frame :: outer).map Frame.region)) (hlaid : Laid body rs)
    (hstop : frame.stop = ip) :
    Enclosed rs (frame.start + 1) ((frame :: outer).map Frame.region) := by
  obtain ⟨hq, hblock, -⟩ := h.covered frame.region List.mem_cons_self
  have hstart := (hlaid.sound _ hq).start_lt
  refine h.transfer hlaid hq (Or.inr (Or.inr hstop.symm)) (Or.inr ⟨_, Or.inl rfl, rfl⟩)
    (fun r _ => Iff.rfl) (fun _ _ => List.mem_cons_self) fun _ => ⟨hblock, Or.inl ?_⟩
  exact Region.covers_iff.2 ⟨Nat.lt_succ_self _, hstart⟩

/-- A statement that is no marker of a loop or protected block is passed. -/
theorem pass (h : Enclosed rs ip (frames.map Frame.region)) (hlaid : Laid body rs)
    (hs : body[ip]? = some s) (hopens : ∀ b, s.opens? = some b → b = .ifThen)
    (hdivides : ∀ b, s.divides? = some b → b = .ifThen)
    (hcloses : ∀ b, s.closes? = some b → b = .ifThen) :
    Enclosed rs (ip + 1) (frames.map Frame.region) := by
  refine h.advance ?_ ?_ ?_
  · exact fun r hr hblock => (hlaid.sound r hr).ne_start hs fun ho => hblock (hopens _ ho)
  · exact fun r hr hblock => (hlaid.sound r hr).ne_last hs (fun hd => hblock (hdivides _ hd))
      fun hc => hblock (hcloses _ hc)
  · exact fun r hr hblock => (hlaid.sound r hr).ne_stop hs fun hc => hblock (hcloses _ hc)

/-- Blocks are left up to an active one. -/
theorem exit {frame : Frame} {outer : List Frame} {ip' : Nat}
    (h : Enclosed rs ip (frames.map Frame.region)) (hlaid : Laid body rs)
    (hordered : FramesOrdered body ip frames) (hs : body[ip]? = some s)
    (hcloses : s.closes? ≠ some .tryBlock) (hsuffix : frame :: outer <:+ frames)
    (hip' : ip' = frame.region.last + 1 ∨ ip' = frame.region.stop ∨ ip' = frame.region.stop + 1) :
    Enclosed rs ip' (if frame.region.covers ip' = true then (frame :: outer).map Frame.region
      else outer.map Frame.region) := by
  have hsuffix' : frame.region :: outer.map Frame.region <:+ frames.map Frame.region :=
    hsuffix.map Frame.region
  have hnone := h.not_endsAt hlaid hs hcloses
  have hmem : frame.region ∈ frames.map Frame.region := hsuffix'.subset List.mem_cons_self
  have hcovers := (h.covered _ hmem).2.2.resolve_right (hnone _ hmem)
  exact h.unwind hlaid (descending_regions hordered) hsuffix' hcovers hip' hnone

/-- The first part of a loop is all of it. -/
theorem last_of_isLoop (hlaid : Laid body rs) (hq : q ∈ rs) (hloop : q.block.isLoop = true) :
    q.last = q.stop := by
  rw [Region.last, (hlaid.sound q hq).middle_of_isLoop hloop, Option.getD_none]

/-- The end of a protected block, which may have been left before. -/
theorem endTry (h : Enclosed rs ip (frames.map Frame.region)) (hlaid : Laid body rs)
    (hordered : FramesOrdered body ip frames) (hs : body[ip]? = some .endTry) :
    Enclosed rs (ip + 1) ((Move.endTry ip frames).map Frame.region) := by
  obtain ⟨q, hq, hstop, hblock⟩ := hlaid.closer hs rfl
  obtain ⟨hq₁, hq₂, -⟩ := hlaid.sound q hq
  have hcovers : q.covers (ip + 1) = false := by
    rw [← Bool.not_eq_true, Region.covers_iff]
    omega
  have hmarked : q.MarkedAt ip := Or.inr (Or.inr hstop.symm)
  by_cases hmem : q ∈ frames.map Frame.region
  · -- The block is still active, so it is the innermost one.
    obtain ⟨_, houter⟩ := h.exists_outer_of_stop hlaid (descending_regions hordered) hmem hstop
    obtain ⟨frame, outer, rfl, rfl, -⟩ := List.map_eq_cons_iff.1 houter
    have hend : Move.endTry ip (frame :: outer) = outer := by
      obtain ⟨kind, start, stop⟩ := frame
      cases kind with
      | tryBlock handler => exact if_pos hstop
      | _ => cases hblock
    rw [hend]
    exact h.close hlaid hordered hstop
  · have hend : Move.endTry ip frames = frames := by
      unfold Move.endTry
      split
      · next handler start stop outer =>
        refine if_neg fun hstop' => hmem ?_
        have hr := (h.covered _ List.mem_cons_self).1
        rw [← not_ne_iff.1 fun hne => hlaid.stop_ne hr hq hne hmarked hstop']
        exact List.mem_cons_self
      · rfl
    rw [hend]
    refine h.transfer hlaid hq hmarked (Or.inr ⟨ip, hmarked, rfl⟩) (fun r _ => Iff.rfl) ?_ ?_
    · intro _ hcov
      rw [hcovers] at hcov
      cases hcov
    · exact fun hmem' => (hmem hmem').elim

/-! ### Moves of one kind -/

/-- The branches of a condition are no active blocks, and jumps between its markers keep those that
    are. -/
theorem jump_branch {ip' : Nat} (h : Enclosed rs ip (frames.map Frame.region))
    (hlaid : Laid body rs) (hq : q ∈ rs) (hblock : q.block = .ifThen) (hip : q.MarkedAt ip) (hip' : q.Border ip') :
    Enclosed rs ip' (frames.map Frame.region) := by
  refine h.transfer hlaid hq hip hip' (fun r _ => Iff.rfl) (fun hne => (hne hblock).elim) ?_
  exact fun hmem => ((h.covered q hmem).2.1 hblock).elim

/-- A loop or protected block is entered. -/
theorem enter {kind : FrameKind} (h : Enclosed rs q.start (frames.map Frame.region))
    (hlaid : Laid body rs) (hq : q ∈ rs) (hblock : q.block = kind.block)
    (hfits : kind.Fits ⟨q.middle, q.stop⟩) :
    Enclosed rs (q.start + 1) ((⟨kind, q.start, q.stop⟩ :: frames).map Frame.region) := by
  rw [List.map_cons, hlaid.frame_region hq hblock hfits]
  refine h.transfer hlaid hq (Or.inl rfl) (Or.inr ⟨q.start, Or.inl rfl, rfl⟩) ?_
    (fun _ _ => List.mem_cons_self) fun _ => ⟨?_, Or.inl ?_⟩
  · intro r hne
    rw [List.mem_cons, or_iff_right hne]
  · rw [hblock]
    exact kind.block_ne_ifThen
  · exact Region.covers_iff.2 ⟨Nat.lt_succ_self _, (hlaid.sound q hq).start_lt⟩

/-- A loop is passed over, and so is not active afterwards. -/
theorem pass_loop (h : Enclosed rs q.start (frames.map Frame.region)) (hlaid : Laid body rs)
    (hq : q ∈ rs) : Enclosed rs (q.stop + 1) (frames.map Frame.region) := by
  obtain ⟨hstart, hlast, -⟩ := hlaid.sound q hq
  refine h.transfer hlaid hq (Or.inl rfl) (Or.inr ⟨q.stop, Or.inr (Or.inr rfl), rfl⟩)
    (fun r _ => Iff.rfl) ?_ ?_
  · intro _ hcovers
    have hle := (Region.covers_iff.1 hcovers).2
    omega
  · intro hmem
    obtain ⟨-, -, hcovers | ⟨-, hends⟩⟩ := h.covered q hmem
    · exact (Nat.lt_irrefl _ (Region.covers_iff.1 hcovers).1).elim
    · omega

/-- A guarded loop goes back to its guard, where it is not active. -/
theorem restart {frame : Frame} {outer : List Frame}
    (h : Enclosed rs ip ((frame :: outer).map Frame.region)) (hlaid : Laid body rs)
    (hordered : FramesOrdered body ip (frame :: outer)) (hstop : frame.stop = ip) :
    Enclosed rs frame.start (outer.map Frame.region) := by
  refine h.leave hlaid hordered hstop (Or.inl (Or.inl rfl)) ?_
  rw [← Bool.not_eq_true, Region.covers_iff]
  exact fun hcovers => Nat.lt_irrefl _ hcovers.1

section

variable {loop : Frame} {outer : List Frame} (h : Enclosed rs ip (frames.map Frame.region))
  (hlaid : Laid body rs) (hordered : FramesOrdered body ip frames) (hs : body[ip]? = some s)
  (hcloses : s.closes? = none) (hloop : frames.dropWhile (fun f => !f.isLoop) = loop :: outer)

include h hlaid hordered hs hcloses hloop

/-- The innermost loop is left. -/
theorem break_loop : Enclosed rs (loop.stop + 1) (outer.map Frame.region) := by
  have hsuffix := FramesOrdered.suffix_of_innermost hloop
  have hexit := h.exit hlaid hordered hs (by simp [hcloses]) hsuffix (Or.inr (Or.inr rfl))
  have hmem : loop.region ∈ rs :=
    hlaid.region_mem (hordered.matched _ (hsuffix.subset List.mem_cons_self))
  have hlast := (hlaid.sound _ hmem).last_le
  rwa [if_neg] at hexit
  rw [Region.covers_iff]
  omega

/-- The innermost loop is closed next, and is active until then. -/
theorem continue_loop : Enclosed rs loop.stop ((loop :: outer).map Frame.region) := by
  have hsuffix := FramesOrdered.suffix_of_innermost hloop
  have hexit := h.exit hlaid hordered hs (by simp [hcloses]) hsuffix (Or.inr (Or.inl rfl))
  have hmem : loop.region ∈ rs :=
    hlaid.region_mem (hordered.matched _ (hsuffix.subset List.mem_cons_self))
  have hisLoop : loop.isLoop = true := by
    have hhead := List.head?_dropWhile_not (fun f : Frame => !f.isLoop) frames
    rw [hloop] at hhead
    simpa using hhead
  have hstart := (hlaid.sound _ hmem).start_lt
  have hlast := last_of_isLoop hlaid hmem hisLoop
  rwa [if_pos] at hexit
  rw [Region.covers_iff]
  omega

end

/-- A protected block whose handler is not needed stays active up to its end. -/
theorem skip_handler (h : Enclosed rs ip (frames.map Frame.region)) (hlaid : Laid body rs)
    (hq : q ∈ rs) (hblock : q.block ≠ .ifThen) (hmiddle : q.middle = some ip) :
    Enclosed rs q.stop (frames.map Frame.region) := by
  have hlast : ip = q.last := by rw [Region.last, hmiddle, Option.getD_some]
  have hstart := (hlaid.sound q hq).start_lt
  have hcovers : q.covers ip = true := Region.covers_iff.2 (by omega)
  refine h.transfer hlaid hq (Or.inr (Or.inl hlast)) (Or.inl (Or.inr (Or.inr rfl)))
    (fun r _ => Iff.rfl) (fun _ _ => h.complete q hq hblock hcovers) fun _ => ?_
  exact ⟨hblock, Or.inr ⟨by simp [hmiddle], rfl⟩⟩

/-- **Every move keeps the active blocks those around the position.** -/
theorem moves (h : Enclosed rs ip (frames.map Frame.region)) (hlaid : Laid body rs)
    (hordered : FramesOrdered body ip frames) (hs : body[ip]? = some s)
    (hmoves : Moves body ip frames s move) :
    Enclosed rs (FramesOrdered.target ip move.flow) (move.frames.map Frame.region) := by
  cases hmoves with
  | proceed hmarker hjump =>
    obtain ⟨hopens, hdivides, hcloses⟩ := Statement.of_isMarker hmarker
    exact h.pass hlaid hs (by simp [hopens]) (by simp [hdivides]) (by simp [hcloses])
  | finish => exact h
  | ifTaken | endIf =>
    exact h.pass hlaid hs (by simp [Statement.opens?]) (by simp [Statement.divides?])
      (by simp [Statement.closes?])
  | ifPassed cond hspan =>
    obtain ⟨q, hq, rfl, hblock, rfl⟩ := hlaid.opener_span hs rfl hspan
    exact h.jump_branch hlaid hq hblock (Or.inl rfl) (Or.inr ⟨q.last, Or.inr (Or.inl rfl), rfl⟩)
  | orElse hstop =>
    obtain ⟨q, hq, hmiddle, hblock, rfl⟩ := hlaid.divider_stop hs rfl hstop
    have hlast : ip = q.last := by rw [Region.last, hmiddle, Option.getD_some]
    exact h.jump_branch hlaid hq hblock (Or.inr (Or.inl hlast))
      (Or.inr ⟨q.stop, Or.inr (Or.inr rfl), rfl⟩)
  | enter hopens hspan hfits =>
    obtain ⟨q, hq, rfl, hblock, rfl⟩ := hlaid.opener_span hs hopens hspan
    exact h.enter hlaid hq hblock hfits
  | passLoop hopens hloop hspan =>
    obtain ⟨q, hq, rfl, hblock, rfl⟩ := hlaid.opener_span hs hopens hspan
    exact h.pass_loop hlaid hq
  | countOn hframes hstop hkind =>
    subst hframes
    exact h.repeat_pass hlaid hstop
  | countOut hframes hstop hkind | walkOut hframes hstop hkind =>
    subst hframes
    exact h.close hlaid hordered hstop
  | @walkOn frame outer var items cursor hframes hstop hkind hnext =>
    subst hframes
    have hsame : Frame.region { frame with kind := .forEach var items (cursor + 1) }
        = frame.region := by
      simp only [Frame.region, hkind, FrameKind.block, FrameKind.handler?]
    rw [List.map_cons, hsame]
    exact h.repeat_pass hlaid hstop
  | again hframes hstop hkind =>
    subst hframes
    exact h.restart hlaid hordered hstop
  | breakLoop hloop => exact h.break_loop hlaid hordered hs rfl hloop
  | continueLoop hloop => exact h.continue_loop hlaid hordered hs rfl hloop
  | catchFault name hstop =>
    obtain ⟨q, hq, hmiddle, hblock, rfl⟩ := hlaid.divider_stop hs rfl hstop
    exact h.skip_handler hlaid hq (by simp [hblock]) hmiddle
  | endTry => exact h.endTry hlaid hordered hs

end Enclosed

namespace Machine

variable {h : Host σ} {p : Program} {m : Machine σ} {rs : List Region}

/-- The end of a protected block raises no fault. -/
theorem closes?_ne_of_fault {body : List Statement} {ip : Nat} {frames : List Frame}
    {s : Statement} {w w' : World σ} {fault : Fault}
    (hrun : (moveOf h body ip frames s).run.run w = (.error fault, w')) :
    s.closes? ≠ some .tryBlock := by
  intro hcloses
  cases s with
  | endTry => cases congrArg Prod.fst hrun
  | _ => cases hcloses

/-- **Every step keeps the active blocks those around the position.** -/
theorem enclosed_step (hlaid : Laid p.body rs) (hordered : FramesOrdered p.body m.ip m.frames)
    (hm : Enclosed rs m.ip (m.frames.map Frame.region)) :
    Enclosed rs (m.step h p).ip ((m.step h p).frames.map Frame.region) := by
  rcases step_cases h p m with hstep | ⟨s, -, hs, ⟨move, w, hrun, hstep⟩ | ⟨fault, w, hrun, hstep⟩⟩
  · rw [hstep]
    exact hm
  · have hmoves := hm.moves hlaid hordered hs (moves_of_run hrun)
    rw [hstep]
    unfold apply
    split
    · next hflow =>
      rw [hflow] at hmoves
      exact hmoves
    · next hflow =>
      rw [hflow] at hmoves
      exact hmoves
    · next hflow =>
      rw [hflow] at hmoves
      exact hmoves
  · rw [hstep]
    unfold raise
    split
    · next handler outer hhandler =>
      obtain ⟨f, hkind, hsuffix⟩ := FramesOrdered.handler_suffix hhandler
      have hlast : f.region.last = handler := by
        simp only [Region.last, Frame.region, hkind, FrameKind.handler?, Option.getD_some]
      have hexit := hm.exit hlaid hordered hs (closes?_ne_of_fault hrun) hsuffix (Or.inl rfl)
      rw [if_neg (by rw [Region.covers_iff]; omega), hlast] at hexit
      exact hexit
    · exact hm

/-- The active blocks of a running program are those around its position at all times. -/
theorem Reachable.enclosed (hm : Reachable h p m) (hlaid : Laid p.body rs) :
    Enclosed rs m.ip (m.frames.map Frame.region) := by
  induction hm with
  | start hs =>
    obtain ⟨hip, hframes, -⟩ := of_start hs
    rw [hip, hframes]
    refine ⟨fun r _ _ hcovers => ?_, fun r hr => by cases hr⟩
    exact (Nat.not_lt_zero _ (Region.covers_iff.1 hcovers).1).elim
  | step hm ih => exact enclosed_step hlaid hm.framesOrdered ih

/-- A statement of a well-nested program finds its partners and its loop. -/
theorem execute_ne_structural {s : Statement} {cause : StructureFault} (hlaid : Laid p.body rs)
    (hordered : FramesOrdered p.body m.ip m.frames)
    (hm : Enclosed rs m.ip (m.frames.map Frame.region)) (hs : p.body[m.ip]? = some s) :
    ((execute h p.body s).run.run m).1 ≠ .error (.structural cause) := by
  intro hfault
  have hrun : (moveOf h p.body m.ip m.frames s).run.run m.world
      = (.error (.structural cause), _) := Prod.ext (fault_of_execute hfault) rfl
  cases blocked_of_run hrun with
  | opener hopens hspan =>
    obtain ⟨q, hq, hstart, -⟩ := hlaid.opener hs hopens
    rw [← hstart, (hlaid.sound q hq).span] at hspan
    cases hspan
  | middle hdivides hstop =>
    obtain ⟨q, hq, hmiddle, -⟩ := hlaid.divider hs hdivides
    rw [((hlaid.sound q hq).divides _ hmiddle).1] at hstop
    cases hstop
  | inactive hcloses hloop hnone =>
    obtain ⟨q, hq, hstop, rfl⟩ := hlaid.closer hs hcloses
    have hlast := Enclosed.last_of_isLoop hlaid hq hloop
    have hstart := (hlaid.sound q hq).start_lt
    have hblock : q.block ≠ .ifThen := by
      intro heq
      rw [heq] at hloop
      cases hloop
    have hmem := hm.complete q hq hblock (Region.covers_iff.2 (by omega))
    obtain ⟨_, houter⟩ :=
      hm.exists_outer_of_stop hlaid (Enclosed.descending_regions hordered) hmem hstop
    obtain ⟨frame, outer, hframes, rfl, -⟩ := List.map_eq_cons_iff.1 houter
    exact hnone frame outer hframes hstop
  | other => exact execute_ne_otherBlock hordered hs hfault
  | outside hjump hnone =>
    obtain ⟨q, hq, hloop, hcovers⟩ := hlaid.jumps _ s hs hjump
    have hblock : q.block ≠ .ifThen := by
      intro heq
      rw [heq] at hloop
      cases hloop
    obtain ⟨frame, hframe, rfl⟩ := List.mem_map.1 (hm.complete q hq hblock hcovers)
    have hnot : frame.region.block.isLoop = false := hnone frame hframe
    rw [hnot] at hloop
    cases hloop

end Machine

/-! ## Lists of regions -/

/-- The loops and protected blocks of a program around a position, outermost first. -/
def Tree.enclosing (t : Tree) (ip : Nat) : List Region :=
  (t.regions 0).filter fun r => r.block != .ifThen && r.covers ip

theorem Tree.mem_enclosing {t : Tree} {ip : Nat} {r : Region} :
    r ∈ t.enclosing ip ↔ r ∈ t.regions 0 ∧ r.block ≠ .ifThen ∧ r.covers ip = true := by
  simp [enclosing]

/-- Lists of regions in the order of their openers are equal when they have the same members. -/
theorem Region.eq_of_mem_iff {l l' : List Region} (hl : l.Pairwise fun r r' => r.start < r'.start)
    (hl' : l'.Pairwise fun r r' => r.start < r'.start) (h : ∀ r, r ∈ l ↔ r ∈ l') : l = l' := by
  have : Std.Irrefl fun r r' : Region => r.start < r'.start := ⟨fun r => Nat.lt_irrefl r.start⟩
  have : Std.Antisymm fun r r' : Region => r.start < r'.start :=
    ⟨fun r r' hlt hlt' => (Nat.lt_asymm hlt hlt').elim⟩
  exact List.Pairwise.eq_of_mem_iff hl hl' h

theorem Tree.pairwise_enclosing {t : Tree} {body : List Statement} (hlaid : Laid body (t.regions 0))
    (ip : Nat) : (t.enclosing ip).Pairwise fun r r' => r.start < r'.start := by
  refine List.Pairwise.filter _ (hlaid.nested.imp_of_mem fun {r r'} hr _ hpre => ?_)
  obtain ⟨hstart, hlast, -⟩ := hlaid.sound r hr
  rcases hpre with hbehind | hin
  · omega
  · exact hin.start_lt

/-- The regions of the active blocks, outermost first. -/
theorem Enclosed.eq_enclosing {t : Tree} {body : List Statement} {ip : Nat} {active : List Region}
    (h : Enclosed (t.regions 0) ip active) (hlaid : Laid body (t.regions 0))
    (hdescending : active.Pairwise fun inner outer => outer.start < inner.start) :
    active.reverse = t.enclosing ip ∨
      ∃ r ∈ t.regions 0, r.block = .tryBlock ∧ r.middle ≠ none ∧ r.stop = ip ∧
        active.reverse = t.enclosing ip ++ [r] := by
  have hsorted := t.pairwise_enclosing hlaid ip
  by_cases hall : ∀ r ∈ active, r.covers ip = true
  · refine Or.inl (Region.eq_of_mem_iff (List.pairwise_reverse.2 hdescending) hsorted fun r => ?_)
    rw [List.mem_reverse, Tree.mem_enclosing]
    constructor
    · intro hr
      obtain ⟨hmem, hblock, -⟩ := h.covered r hr
      exact ⟨hmem, hblock, hall r hr⟩
    · rintro ⟨hmem, hblock, hcovers⟩
      exact h.complete r hmem hblock hcovers
  · -- A block that ends here is the innermost one, and all others cover the position.
    push Not at hall
    obtain ⟨q, hq, hnot⟩ := hall
    obtain ⟨hqmem, hqblock, hcovers | ⟨hmiddle, hstop⟩⟩ := h.covered q hq
    · exact (hnot hcovers).elim
    obtain ⟨outer, rfl⟩ := h.exists_outer_of_stop hlaid hdescending hq hstop
    obtain ⟨hbelow, hdescending'⟩ := List.pairwise_cons.1 hdescending
    refine Or.inr ⟨q, hqmem, (hlaid.sound q hqmem).block_of_middle hmiddle hqblock, hmiddle, hstop,
      ?_⟩
    rw [List.reverse_cons, List.append_left_inj]
    refine Region.eq_of_mem_iff (List.pairwise_reverse.2 hdescending') hsorted fun r => ?_
    rw [List.mem_reverse, Tree.mem_enclosing]
    constructor
    · intro hr
      have hne : r ≠ q := by
        rintro rfl
        exact Nat.lt_irrefl _ (hbelow r hr)
      obtain ⟨hmem, hblock, hcovers | ⟨-, hends⟩⟩ := h.covered r (List.mem_cons_of_mem _ hr)
      · exact ⟨hmem, hblock, hcovers⟩
      · exact (hlaid.stop_ne hmem hqmem hne (Or.inr (Or.inr hstop.symm)) hends).elim
    · rintro ⟨hmem, hblock, hcovers⟩
      rcases List.mem_cons.1 (h.complete r hmem hblock hcovers) with rfl | hr
      · exact (hnot hcovers).elim
      · exact hr

/-! ## Well-nested programs -/

/-- The blocks of a well-nested program are laid out as regions. -/
theorem Program.exists_laid {p : Program} (hp : p.structureIssues = []) :
    ∃ rs, Laid p.body rs := by
  obtain ⟨t, ht⟩ := exists_tree hp
  exact ⟨_, t.laid ht ((structureIssues_of_tree ht).1 hp)⟩

namespace Machine

variable {h : Host σ} {p : Program}

/-- **The active blocks of a well-nested program are those around its position.** Read as a tree,
    the program has at all times, outermost first, exactly the loops and protected blocks active
    that enclose the position, each with its opener, closer and handler; at the end of a protected
    block with a handler, that block may be active as well. So no statement ever finds the block
    structure broken. -/
theorem frames_enclose (hp : p.structureIssues = []) :
    (∃ t : Tree, t.statements = p.body) ∧
      ∀ t : Tree, t.statements = p.body → ∀ m : Machine σ, Reachable h p m →
        (m.frames.reverse.map Frame.region = t.enclosing m.ip ∨
          ∃ r ∈ t.regions 0, r.block = .tryBlock ∧ r.middle ≠ none ∧ r.stop = m.ip ∧
            m.frames.reverse.map Frame.region = t.enclosing m.ip ++ [r]) ∧
        ∀ s, p.body[m.ip]? = some s → ∀ cause,
          ((execute h p.body s).run.run m).1 ≠ .error (.structural cause) := by
  refine ⟨Program.exists_tree hp, fun t ht m hm => ?_⟩
  have hlaid := t.laid ht ((Program.structureIssues_of_tree ht).1 hp)
  have hordered := hm.framesOrdered
  have henclosed := hm.enclosed hlaid
  constructor
  · rw [List.map_reverse]
    exact henclosed.eq_enclosing hlaid (Enclosed.descending_regions hordered)
  · exact fun s hs cause => execute_ne_structural hlaid hordered henclosed hs

/-- A protected block in a loop. -/
def guardedLoop : Program where
  name := "Guarded"
  kind := .algorithm
  body := [.whileLoop "True", .tryBlock, .breakLoop, .catchFault "e", .endTry, .endWhile]

/-- Its blocks as a tree. -/
def guardedLoopTree : Tree :=
  .loop (.guarded "True") (.tryCatch (.plain .breakLoop Statement.isMarker_breakLoop) "e" .skip)

/-- Two steps into the program, the loop and the protected block are active. -/
theorem frames_enclose_guardedLoop :
    guardedLoop.structureIssues = [] ∧ guardedLoopTree.statements = guardedLoop.body ∧
      ∃ m : Machine (Library.State Unit Unit),
        Reachable (Library.host (Library.standard .plain)) guardedLoop m ∧
        m.ip = 2 ∧ m.frames.reverse.map Frame.region = guardedLoopTree.enclosing 2 ∧
        guardedLoopTree.enclosing 2 = [⟨.whileLoop, 0, none, 5⟩, ⟨.tryBlock, 1, some 3, 4⟩] := by
  have hp : guardedLoop.structureIssues = [] := rfl
  have hstart : guardedLoop.start [] ({ memory := () } : Library.State Unit Unit)
      = .ok ⟨⟨{ host := { memory := () } }, #[], none⟩, 0, [], .running⟩ := rfl
  have hm := (Reachable.start (h := Library.host (Library.standard .plain)) hstart).step.step
  refine ⟨hp, rfl, _, hm, rfl, ?_, rfl⟩
  rcases ((frames_enclose hp).2 guardedLoopTree rfl _ hm).1 with hframes | ⟨r, hr, -, -, hstop, -⟩
  · exact hframes
  · have hends : ∀ r ∈ guardedLoopTree.regions 0, r.stop ≠ 2 := by decide
    exact (hends r hr hstop).elim

end Machine

end StepScript
