import StepScript.Program.Parser
import StepScript.Proofs.Operands

/-!
# Lines, words and lists of names

What comes out of cutting a text into lines, a line into words and a list at its commas, and what
is found again when lines, words and names are put together.
-/

set_option autoImplicit false

namespace StepScript

namespace Text

/-! ## Lines -/

/-- A line with the carriage return taken off its end: `line` is the line, last character first. -/
private def closed : (line : List Char) → List Char
  | '\r' :: line => line.reverse
  | line => line.reverse

private theorem linesFrom_cons (c : Char) (text line : List Char) :
    linesFrom (c :: text) line =
      if c == '\n' then closed line :: linesFrom text [] else linesFrom text (c :: line) :=
  rfl

private theorem mem_of_mem_closed {line : List Char} {c : Char} (h : c ∈ closed line) :
    c ∈ line := by
  unfold closed at h
  split at h
  · exact List.mem_cons_of_mem _ (List.mem_reverse.1 h)
  · exact List.mem_reverse.1 h

/-- No line holds a line feed. -/
theorem not_mem_of_mem_linesFrom {text line l : List Char} (hline : '\n' ∉ line)
    (h : l ∈ linesFrom text line) : '\n' ∉ l := by
  induction text generalizing line with
  | nil =>
    rw [linesFrom] at h
    split at h
    · cases h
    · rw [List.mem_singleton.1 h, List.mem_reverse]
      exact hline
  | cons c text ih =>
    rw [linesFrom_cons] at h
    split at h
    · rcases List.mem_cons.1 h with rfl | h
      · exact fun hmem => hline (mem_of_mem_closed hmem)
      · exact ih (by simp) h
    · next hc =>
      refine ih ?_ h
      have hne : '\n' ≠ c := by
        rintro rfl
        exact hc rfl
      simp [hline, hne]

theorem not_mem_of_mem_lines {src l : String} (h : l ∈ lines src) : '\n' ∉ l.toList := by
  obtain ⟨cs, hcs, rfl⟩ := List.mem_map.1 h
  rw [String.toList_ofList]
  exact not_mem_of_mem_linesFrom (by simp) hcs

/-- A line can be written: it holds no line feed, and no carriage return at its end. -/
def IsLine (cs : List Char) : Prop :=
  '\n' ∉ cs ∧ cs.getLast? ≠ some '\r'

private theorem linesFrom_append {cs : List Char} (hcs : '\n' ∉ cs) (text line : List Char) :
    linesFrom (cs ++ '\n' :: text) line = closed (cs.reverse ++ line) :: linesFrom text [] := by
  induction cs generalizing line with
  | nil => rfl
  | cons c cs ih =>
    have hc : (c == '\n') = false := by
      rw [beq_eq_false_iff_ne]
      rintro rfl
      exact hcs List.mem_cons_self
    rw [List.cons_append, linesFrom_cons, hc, if_neg (by decide),
      ih fun hmem => hcs (List.mem_cons_of_mem c hmem)]
    simp

theorem linesFrom_line {cs : List Char} (hcs : IsLine cs) (text : List Char) :
    linesFrom (cs ++ '\n' :: text) [] = cs :: linesFrom text [] := by
  rw [linesFrom_append hcs.1, List.append_nil]
  have hclosed : closed cs.reverse = cs := by
    unfold closed
    split
    · next line heq =>
      have hlast : cs.getLast? = some '\r' := by
        rw [← List.head?_reverse, heq]
        rfl
      exact absurd hlast hcs.2
    · exact List.reverse_reverse cs
  rw [hclosed]

/-- Lines that are written are read back. -/
theorem lines_join {ls : List String} (h : ∀ l ∈ ls, IsLine l.toList) :
    lines (String.join (ls.map (· ++ "\n"))) = ls := by
  rw [lines, String.toList_join]
  induction ls with
  | nil => rfl
  | cons l ls ih =>
    have htext : (List.map (· ++ "\n") (l :: ls)).flatMap String.toList
        = l.toList ++ '\n' :: (List.map (· ++ "\n") ls).flatMap String.toList := by simp
    rw [htext, linesFrom_line (h l List.mem_cons_self), List.map_cons, String.ofList_toList,
      ih fun l' hl' => h l' (List.mem_cons_of_mem l hl')]

/-! ## Words -/

/-- A word: not empty, and without a blank. -/
def IsWord (w : List Char) : Prop :=
  w ≠ [] ∧ ∀ c ∈ w, isBlank c = false

theorem isWord_of_mem_wordsFrom {cs word w : List Char} (hword : ∀ c ∈ word, isBlank c = false)
    (h : w ∈ wordsFrom cs word) : IsWord w := by
  induction cs generalizing word with
  | nil =>
    rw [wordsFrom] at h
    split at h
    · cases h
    · next hne =>
      rw [List.mem_singleton.1 h]
      exact ⟨by simpa using hne, by simpa using hword⟩
  | cons c cs ih =>
    rw [wordsFrom] at h
    split at h
    · split at h
      · exact ih (by simp) h
      · next hne =>
        rcases List.mem_cons.1 h with rfl | h
        · exact ⟨by simpa using hne, by simpa using hword⟩
        · exact ih (by simp) h
    · next hc =>
      refine ih (fun d hd => ?_) h
      rcases List.mem_cons.1 hd with rfl | hd
      · simpa using hc
      · exact hword d hd

theorem wordsFrom_append {w : List Char} (hw : ∀ c ∈ w, isBlank c = false) (cs word : List Char) :
    wordsFrom (w ++ cs) word = wordsFrom cs (w.reverse ++ word) := by
  induction w generalizing word with
  | nil => rfl
  | cons c w ih =>
    rw [List.cons_append, wordsFrom, hw c List.mem_cons_self, if_neg (by decide),
      ih fun d hd => hw d (List.mem_cons_of_mem c hd)]
    simp

theorem words_space {w : List Char} (hw : IsWord w) (cs : List Char) :
    words (w ++ ' ' :: cs) = w :: words cs := by
  have hne : (w.reverse ++ []).isEmpty = false := by simpa using hw.1
  have hblank : isBlank ' ' = true := rfl
  rw [words, wordsFrom_append hw.2, wordsFrom, hblank, if_pos rfl, hne, if_neg (by decide)]
  simp [words]

theorem words_self {w : List Char} (hw : IsWord w) : words w = [w] := by
  have hne : (w.reverse ++ []).isEmpty = false := by simpa using hw.1
  have happend := wordsFrom_append hw.2 [] []
  rw [List.append_nil] at happend
  rw [words, happend, wordsFrom, hne, if_neg (by decide)]
  simp

/-! ## Lists of names -/

theorem splitFrom_comma (text piece : List Char) :
    splitFrom [','] (',' :: text) piece 0 = piece.reverse :: splitFrom [','] text [] 0 :=
  rfl

theorem splitFrom_cons {c : Char} (hc : c ≠ ',') (text piece : List Char) :
    splitFrom [','] (c :: text) piece 0 = splitFrom [','] text (c :: piece) 0 := by
  have hne : (',' == c) = false := by simpa using hc.symm
  simp [splitFrom, startsWith, after?, hne]

theorem splitFrom_append {x : List Char} (hx : ',' ∉ x) (text piece : List Char) :
    splitFrom [','] (x ++ text) piece 0 = splitFrom [','] text (x.reverse ++ piece) 0 := by
  induction x generalizing piece with
  | nil => rfl
  | cons c x ih =>
    have hc : c ≠ ',' := by
      rintro rfl
      exact hx List.mem_cons_self
    rw [List.cons_append, splitFrom_cons hc, ih fun hmem => hx (List.mem_cons_of_mem c hmem)]
    simp

/-- The pieces between commas hold no comma, and nothing that was not in the text. -/
theorem of_mem_splitFrom {text piece x : List Char} (hpiece : ',' ∉ piece)
    (h : x ∈ splitFrom [','] text piece 0) : ',' ∉ x ∧ ∀ c ∈ x, c ∈ piece ∨ c ∈ text := by
  induction text generalizing piece with
  | nil =>
    rw [List.mem_singleton.1 h]
    exact ⟨by simpa using hpiece, fun c hc => Or.inl (List.mem_reverse.1 hc)⟩
  | cons d text ih =>
    by_cases hd : d = ','
    · subst hd
      rw [splitFrom_comma] at h
      rcases List.mem_cons.1 h with rfl | h
      · exact ⟨by simpa using hpiece, fun c hc => Or.inl (List.mem_reverse.1 hc)⟩
      · obtain ⟨hcomma, hchars⟩ := ih (by simp) h
        refine ⟨hcomma, fun c hc => Or.inr (List.mem_cons_of_mem _ ?_)⟩
        exact (hchars c hc).resolve_left (by simp)
    · rw [splitFrom_cons hd] at h
      obtain ⟨hcomma, hchars⟩ := ih (by simpa [eq_comm, hd] using hpiece) h
      refine ⟨hcomma, fun c hc => ?_⟩
      rcases hchars c hc with hmem | hmem
      · rcases List.mem_cons.1 hmem with rfl | hmem
        · exact Or.inr List.mem_cons_self
        · exact Or.inl hmem
      · exact Or.inr (List.mem_cons_of_mem d hmem)

/-- A name in a list of names: not empty, without blanks at its ends, commas and line feeds. -/
structure IsListed (n : List Char) : Prop where
  trimmed : trim n = n
  ne_nil : n ≠ []
  noComma : ',' ∉ n
  oneLine : '\n' ∉ n

end Text

/-- The names that are read from a line can be listed. -/
theorem isListed_of_mem_inputNames {cs : List Char} {n : String} (hcs : '\n' ∉ cs)
    (h : n ∈ inputNames cs) : Text.IsListed n.toList := by
  obtain ⟨x, hx, rfl⟩ := List.mem_map.1 h
  obtain ⟨hx, hne⟩ := List.mem_filter.1 hx
  obtain ⟨piece, hpiece, rfl⟩ := List.mem_map.1 hx
  obtain ⟨hcomma, hchars⟩ := Text.of_mem_splitFrom (by simp) hpiece
  rw [String.toList_ofList]
  refine ⟨Text.trim_trim piece, by simpa using hne, fun hmem => ?_, fun hmem => ?_⟩
  · exact hcomma (Text.mem_of_mem_trim hmem)
  · exact hcs ((hchars _ (Text.mem_of_mem_trim hmem)).resolve_left (by simp))

end StepScript
