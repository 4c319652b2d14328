import StepScript.Proofs.Agreement
import StepScript.Proofs.Parts

/-!
# Assignment to places

A chain of indices and fields names a place twice over: evaluated as an expression it reads the
place, and an assignment stores there. Both evaluate the indices on their own, in different orders.
If the indices call no changing method on a variable, and the functions that they may call are pure,
then nothing depends on the order and the chain stands for one path (`Expr.pathIn`), along which it
reads (`Expr.evaluate_of_pathIn`) and stores (`Expr.run_place`).

If the indices do not name the variable either that the chain starts from, the path stays the same
after the assignment, and the laws of a lens that hold along a path hold of the assignment
(`Expr.assign_obeys_lensLaws`).
-/

set_option autoImplicit false

namespace StepScript

variable {σ : Type}

/-! ## Places of environments -/

/-- What is read at a place. -/
def Env.partOf (env : Env σ) (p : Place) : Except Fault Value :=
  env.nameValue p.root >>= fun u => env.partAlong u p.path

theorem Env.get?_of_lookup {env : Env σ} {x : String} {v : Value} (h : env.lookup x = .ok v) :
    env.get? x = some v := by
  unfold lookup at h
  split at h
  · next hget =>
    cases h
    exact hget
  · cases h

theorem Env.nameValue_of_get? {env : Env σ} {x : String} {v : Value} (h : env.get? x = some v) :
    env.nameValue x = .ok v := by
  simp only [nameValue, h]

theorem Env.partOf_of_get? {env : Env σ} {root : String} {u : Value} (h : env.get? root = some u)
    (path : List Accessor) : env.partOf ⟨root, path⟩ = env.partAlong u path := by
  rw [partOf, nameValue_of_get? h]
  rfl

theorem Env.partOf_append (env : Env σ) (root : String) (path : List Accessor) (a : Accessor) :
    env.partOf ⟨root, path ++ [a]⟩ = env.partOf ⟨root, path⟩ >>= fun u => env.partAt u a := by
  simp [partOf, partAlong, List.foldlM_append]

namespace Place

/-- The environment with a value stored in a place. -/
inductive StoredIn (new : Value) (env : Env σ) : Place → Env σ → Prop where
  | whole {root : String} : StoredIn new env ⟨root, []⟩ (env.set root new)
  | part {root : String} {a : Accessor} {path : List Accessor} {u u' : Value}
      (hroot : env.get? root = some u) (h : StoredAlong new u (a :: path) u') :
      StoredIn new env ⟨root, a :: path⟩ (env.set root u')

/-- Nothing is different but what lies at a place: the other variables are the same, the host and
    what it has handed out, and so is what is read along any other path of the same variable. -/
structure KeepsRest (p : Place) (env env' : Env σ) : Prop where
  get?_eq {x : String} (hx : x ≠ p.root) : env'.get? x = env.get? x
  objects_eq : env'.objects = env.objects
  modules_eq : env'.modules = env.modules
  host_eq : env'.host = env.host
  partAlong_eq {u u' : Value} {other : List Accessor} (hu : env.get? p.root = some u)
    (hu' : env'.get? p.root = some u') (hsound : u.IsSound) (hother : ∀ a ∈ other, a.IsSound)
    (hdiverge : Diverge u p.path other) : env'.partAlong u' other = env.partAlong u other

theorem store_eq_ok_iff {p : Place} {new : Value} {env env' : Env σ} :
    p.store new env = .ok env' ↔ StoredIn new env p env' := by
  obtain ⟨root, path⟩ := p
  cases path with
  | nil =>
    constructor
    · rintro ⟨⟩
      exact .whole
    · rintro ⟨⟩
      rfl
  | cons a path =>
    have hstore : store ⟨root, a :: path⟩ new env
        = env.lookup root >>= fun u => storeAlong u (a :: path) new >>= fun u' =>
            pure (env.set root u') := rfl
    rw [hstore]
    constructor
    · intro h
      obtain ⟨u, hu, h⟩ := exists_ok_of_bind h
      obtain ⟨u', hu', ⟨⟩⟩ := exists_ok_of_bind h
      exact .part (Env.get?_of_lookup hu) (storeAlong_eq_ok_iff.1 hu')
    · rintro (_ | ⟨hroot, h⟩)
      simp only [Env.lookup, hroot, bind, Except.bind, storeAlong_eq_ok_iff.2 h]
      rfl

namespace StoredIn

variable {new : Value} {env env' : Env σ} {p : Place}

theorem agreeOn (h : StoredIn new env p env') {names : List String} (hroot : p.root ∉ names) :
    env.AgreeOn names env' := by
  cases h with
  | whole => exact .set_right hroot env _
  | part => exact .set_right hroot env _

theorem pureFunctions (h : StoredIn new env p env') (hpure : env.PureFunctions) :
    env'.PureFunctions := by
  cases h with
  | whole => exact hpure.set _ _
  | part => exact hpure.set _ _

/-- What was stored in a place is read there, if its keys equal themselves or something was read
    there before. -/
theorem partOf_eq (h : StoredIn new env p env')
    (hkeys : (∀ a ∈ p.path, a.IsRegular) ∨ ∃ old, env.partOf p = .ok old) :
    env'.partOf p = .ok new := by
  cases h with
  | whole =>
    rw [Env.partOf_of_get? (Env.get?_set_self env _ new)]
    rfl
  | @part root a path u u' hroot h =>
    rw [Env.partOf_of_get? hroot] at hkeys
    rw [Env.partOf_of_get? (Env.get?_set_self env root u')]
    exact h.partAlong_eq hkeys _

/-- Of two values stored in a place only the second one is left. -/
theorem overwrite (h : StoredIn new env p env') (hkeys : ∀ a ∈ p.path, a.IsRegular) (w : Value) :
    ∃ after, StoredIn w env p after ∧ StoredIn w env' p after := by
  cases h with
  | @whole root =>
    have hagain : StoredIn w (env.set root new) ⟨root, []⟩ _ := .whole
    rw [Env.set_set] at hagain
    exact ⟨_, .whole, hagain⟩
  | @part root a path u u' hroot h =>
    obtain ⟨u'', hfirst, hagain⟩ := h.overwrite hkeys w
    have hstored := StoredIn.part (env.get?_set_self root u') hagain
    rw [Env.set_set] at hstored
    exact ⟨_, .part hroot hfirst, hstored⟩

/-- A store changes its place only. -/
theorem keepsRest (h : StoredIn new env p env') (hpath : ∀ a ∈ p.path, a.IsSound) :
    p.KeepsRest env env' := by
  refine ⟨fun {x} hx => ?_, by cases h <;> rfl, by cases h <;> rfl, by cases h <;> rfl, ?_⟩
  · have hx' : p.root ∉ [x] := fun hmem => hx (List.mem_singleton.1 hmem).symm
    exact ((h.agreeOn hx').bindings x (List.mem_singleton_self x)).symm
  · intro u u' other hu hu' hsound hother hdiverge
    cases h with
    | whole => cases hdiverge
    | @part root a path u₀ u₀' hroot h =>
      obtain rfl : u₀ = u := Option.some.inj (hroot.symm.trans hu)
      obtain rfl : u₀' = u' := Option.some.inj ((env.get?_set_self root u₀').symm.trans hu')
      exact h.partAlong_of_diverge hsound hpath hother hdiverge env

end StoredIn

end Place

/-! ## Chains -/

namespace Expr

/-- The variable that a chain of indices and fields starts from. -/
def root? : Expr → Option String
  | .name n => some n
  | .index c _ => root? c
  | .field c _ => root? c
  | _ => none

/-- The index expressions of a chain. -/
def indices : Expr → List Expr
  | .index c i => indices c ++ [i]
  | .field c _ => indices c
  | _ => []

/-- The path that a chain stands for, all its indices evaluated in the same environment. -/
def pathIn (env : Env σ) : Expr → Except Fault (List Accessor)
  | .name _ => .ok []
  | .index c i => do
    let key ← (i.evaluate env).1
    let path ← pathIn env c
    return path ++ [.index key]
  | .field c member => do
    let path ← pathIn env c
    return path ++ [.field member]
  | _ => .error (.type .notPlace)

/-- Only a chain names a place. -/
theorem root?_of_run_place {e : Expr} {p : Place} {env after : Env σ}
    (h : e.place.run.run env = (.ok p, after)) : e.root? = some p.root := by
  fun_induction root? e generalizing p env with
  | case1 n =>
    cases h
    rfl
  | case2 c i ih =>
    rw [place] at h
    obtain ⟨key, mid, -, h⟩ := Eval.run_bind_ok h
    obtain ⟨q, last, hq, ⟨⟩⟩ := Eval.run_bind_ok h
    have hroot := ih hq
    exact hroot
  | case3 c member ih =>
    rw [place] at h
    obtain ⟨q, last, hq, ⟨⟩⟩ := Eval.run_bind_ok h
    have hroot := ih hq
    exact hroot
  | case4 e hname hindex hfield =>
    rw [place] at h
    · cases h
    all_goals assumption

section

variable {e : Expr} {root : String} {env : Env σ}

theorem receivers_eq_nil (hroot : e.root? = some root)
    (hquiet : ∀ i ∈ e.indices, i.receivers = []) : e.receivers = [] := by
  fun_induction root? e with
  | case1 n => rfl
  | case2 c i ih =>
    rw [indices, List.forall_mem_append, List.forall_mem_singleton] at hquiet
    rw [receivers, ih hroot hquiet.1, hquiet.2]
    rfl
  | case3 c member ih => exact ih hroot hquiet
  | case4 => cases hroot

/-- The place of a chain without effects is its path, whatever the order of evaluation. -/
theorem run_place (hroot : e.root? = some root) (hquiet : ∀ i ∈ e.indices, i.receivers = [])
    (hpure : env.PureFunctions) : e.place.run.run env = (Place.mk root <$> e.pathIn env, env) := by
  fun_induction root? e with
  | case1 n =>
    cases hroot
    rfl
  | case2 c i ih =>
    rw [indices, List.forall_mem_append, List.forall_mem_singleton] at hquiet
    rw [place, Eval.run_bind, run_eval_of_receivers hquiet.2 hpure, pathIn]
    cases (i.evaluate env).1 with
    | error fault => rfl
    | ok key =>
      dsimp only
      rw [Eval.run_bind, ih hroot hquiet.1]
      cases c.pathIn env <;> rfl
  | case3 c member ih =>
    rw [place, Eval.run_bind, ih hroot hquiet, pathIn]
    cases c.pathIn env <;> rfl
  | case4 => cases hroot

theorem pathIn_of_run_place (hroot : e.root? = some root)
    (hquiet : ∀ i ∈ e.indices, i.receivers = []) (hpure : env.PureFunctions)
    {p : Place} {mid : Env σ}
    (h : e.place.run.run env = (.ok p, mid)) :
    ∃ path, e.pathIn env = .ok path ∧ p = ⟨root, path⟩ ∧ mid = env := by
  rw [run_place hroot hquiet hpure] at h
  cases hpath : e.pathIn env with
  | error fault =>
    rw [hpath] at h
    cases h
  | ok path =>
    rw [hpath] at h
    cases h
    exact ⟨path, rfl, rfl, rfl⟩

/-- **A chain without effects reads along its path.** -/
theorem evaluate_of_pathIn (hroot : e.root? = some root)
    (hquiet : ∀ i ∈ e.indices, i.receivers = []) (hpure : env.PureFunctions) {path : List Accessor}
    (hpath : e.pathIn env = .ok path) : e.evaluate env = (env.partOf ⟨root, path⟩, env) := by
  fun_induction root? e generalizing path with
  | case1 n =>
    cases hroot
    cases hpath
    show (env.nameValue root, env) = (env.nameValue root >>= fun u => .ok u, env)
    cases env.nameValue root <;> rfl
  | case2 c i ih =>
    rw [indices, List.forall_mem_append, List.forall_mem_singleton] at hquiet
    obtain ⟨key, hkey, hrest⟩ := exists_ok_of_bind hpath
    obtain ⟨path, hinit, ⟨⟩⟩ := exists_ok_of_bind hrest
    have hc := ih hroot hquiet.1 hinit
    have hi : i.eval.run.run env = (.ok key, env) := by
      rw [run_eval_of_receivers hquiet.2 hpure, hkey]
    rw [Env.partOf_append]
    unfold evaluate at hc ⊢
    rw [eval, Eval.run_bind, hc]
    cases env.partOf ⟨root, path⟩ with
    | error fault => rfl
    | ok u =>
      dsimp only
      rw [Eval.run_bind, hi]
      rfl
  | case3 c member ih =>
    obtain ⟨path, hinit, ⟨⟩⟩ := exists_ok_of_bind hpath
    have hc := ih hroot hquiet hinit
    rw [Env.partOf_append]
    unfold evaluate at hc ⊢
    rw [eval, Eval.run_bind, hc]
    cases env.partOf ⟨root, path⟩ <;> rfl
  | case4 => cases hroot

/-- The keys of a path are values of the indices. -/
theorem mem_path {path : List Accessor} (hpath : e.pathIn env = .ok path) {key : Value}
    (hkey : .index key ∈ path) : ∃ i ∈ e.indices, (i.evaluate env).1 = .ok key := by
  fun_induction pathIn env e generalizing path with
  | case1 n =>
    cases hpath
    cases hkey
  | case2 c i ih =>
    obtain ⟨last, hlast, hrest⟩ := exists_ok_of_bind hpath
    obtain ⟨path, hinit, ⟨⟩⟩ := exists_ok_of_bind hrest
    rcases List.mem_append.1 hkey with hkey | hkey
    · obtain ⟨j, hj, hvalue⟩ := ih hinit hkey
      exact ⟨j, List.mem_append_left _ hj, hvalue⟩
    · cases List.mem_singleton.1 hkey
      exact ⟨i, List.mem_append_right _ (List.mem_singleton_self i), hlast⟩
  | case3 c member ih =>
    obtain ⟨path, hinit, ⟨⟩⟩ := exists_ok_of_bind hpath
    rcases List.mem_append.1 hkey with hkey | hkey
    · exact ih hinit hkey
    · cases List.mem_singleton.1 hkey
  | case4 => cases hpath

/-- Environments that agree on what the indices name give the same path. -/
theorem pathIn_congr {env' : Env σ} (h : ∀ i ∈ e.indices, env.AgreeOn i.names env') :
    e.pathIn env = e.pathIn env' := by
  fun_induction pathIn env e with
  | case1 n => rfl
  | case2 c i ih =>
    rw [indices, List.forall_mem_append, List.forall_mem_singleton] at h
    have hi : (i.evaluate env).1 = (i.evaluate env').1 :=
      (i.readsOnly_eval (List.Subset.refl _) env env' h.2).1
    rw [pathIn, hi, ih h.1]
  | case3 c member ih => rw [pathIn, ih h]
  | case4 e hname hindex hfield =>
    rw [pathIn]
    all_goals assumption

end

/-! ## Assignment -/

theorem run_assign (e : Expr) (v : Value) (env : Env σ) :
    (e.assign v : Eval σ Unit).run.run env
      = match e.place.run.run env with
        | (.error fault, mid) => (.error fault, mid)
        | (.ok p, mid) =>
          match p.store v mid with
          | .error fault => (.error fault, mid)
          | .ok after => (.ok (), after) := by
  rw [assign, Eval.run_bind]
  rcases e.place.run.run env with ⟨r, mid⟩
  cases r with
  | error fault => rfl
  | ok p =>
    show (Eval.lift (p.store v mid) >>= _).run.run mid = _
    rw [Eval.run_bind, Eval.run_lift]
    dsimp only
    cases p.store v mid <;> rfl

theorem run_assign_eq_ok_iff {e : Expr} {v : Value} {env after : Env σ} :
    (e.assign v).run.run env = (.ok (), after)
      ↔ ∃ p mid, e.place.run.run env = (.ok p, mid) ∧ Place.StoredIn v mid p after := by
  rw [run_assign]
  constructor
  · intro h
    split at h
    · cases h
    · next p mid hp =>
      split at h
      · cases h
      · next hstore =>
        cases h
        exact ⟨p, mid, hp, Place.store_eq_ok_iff.1 hstore⟩
  · rintro ⟨p, mid, hp, hstored⟩
    rw [hp]
    dsimp only
    rw [Place.store_eq_ok_iff.2 hstored]

/-- A store that fails comes after the place was found and changes nothing. -/
theorem eq_of_run_assign_error {e : Expr} {v : Value} {env after : Env σ} {fault : Fault}
    (h : (e.assign v).run.run env = (.error fault, after)) : after = (e.place.run.run env).2 := by
  rw [run_assign] at h
  split at h
  · next hp =>
    cases h
    rw [hp]
  · next hp =>
    split at h
    · cases h
      rw [hp]
    · cases h

/-- A chain that names a place: it starts from a variable, and its indices call no changing method
    on a variable and no function that is not pure, do not name the variable that the chain starts
    from, and have keys without NaN. -/
structure IsTarget (target : Expr) (root : String) (env : Env σ) : Prop where
  root?_eq : target.root? = some root
  receivers_eq : ∀ i ∈ target.indices, i.receivers = []
  root_notMem : ∀ i ∈ target.indices, root ∉ i.names
  isRegular : ∀ i ∈ target.indices, ∀ key, (i.evaluate env).1 = .ok key → key.IsRegular
  pureFunctions : env.PureFunctions

/-- What holds after a value was assigned to a place. -/
structure LensLaws (target : Expr) (root : String) (v : Value) (env env' : Env σ) : Prop where
  /-- The chain has the value that was assigned. -/
  evaluate_eq : target.evaluate env' = (.ok v, env')
  /-- Another value can be assigned, before as well as after, and it makes no difference. -/
  assign_assign (w : Value) : ∃ after, (target.assign w).run.run env = (.ok (), after) ∧
    (target.assign w).run.run env' = (.ok (), after)
  keepsRest : ∃ path, target.place.run.run env = (.ok ⟨root, path⟩, env) ∧
    Place.KeepsRest ⟨root, path⟩ env env'

theorem IsTarget.isRegular_path {target : Expr} {root : String} {env : Env σ}
    (h : target.IsTarget root env) {path : List Accessor} (hpath : target.pathIn env = .ok path) :
    ∀ a ∈ path, a.IsRegular := by
  intro a ha
  cases a with
  | field name => trivial
  | index key =>
    obtain ⟨i, hi, hkey⟩ := mem_path hpath ha
    exact h.isRegular i hi key hkey

/-- **Assignment obeys the laws of a lens**, and leaves the environment as it was when it ends in a
    fault. -/
theorem assign_obeys_lensLaws {target : Expr} {root : String} {env : Env σ}
    (h : target.IsTarget root env) (v : Value) :
    (∀ fault env', (target.assign v).run.run env = (.error fault, env') → env' = env) ∧
      ∀ env', (target.assign v).run.run env = (.ok (), env') →
        target.LensLaws root v env env' := by
  have hplace := target.run_place h.root?_eq h.receivers_eq h.pureFunctions
  refine ⟨fun fault env' hrun => ?_, fun env' hrun => ?_⟩
  · rw [eq_of_run_assign_error hrun, hplace]
  obtain ⟨p, mid, hp, hstored⟩ := run_assign_eq_ok_iff.1 hrun
  obtain ⟨path, hpath, rfl, rfl⟩ :=
    pathIn_of_run_place h.root?_eq h.receivers_eq h.pureFunctions hp
  have hregular := h.isRegular_path hpath
  have hpure' := hstored.pureFunctions h.pureFunctions
  -- the assignment has not touched what the indices read
  have hpath' : target.pathIn env' = .ok path := by
    rw [← hpath]
    exact (pathIn_congr fun i hi => hstored.agreeOn (h.root_notMem i hi)).symm
  refine ⟨?_, fun w => ?_, path, hp, hstored.keepsRest fun a ha => (hregular a ha).isSound⟩
  · rw [evaluate_of_pathIn h.root?_eq h.receivers_eq hpure' hpath',
      hstored.partOf_eq (Or.inl hregular)]
  · obtain ⟨after, hfirst, hagain⟩ := hstored.overwrite hregular w
    have hplace' : target.place.run.run env' = (.ok ⟨root, path⟩, env') := by
      rw [target.run_place h.root?_eq h.receivers_eq hpure', hpath']
      rfl
    exact ⟨after, run_assign_eq_ok_iff.2 ⟨_, _, hp, hfirst⟩,
      run_assign_eq_ok_iff.2 ⟨_, _, hplace', hagain⟩⟩

/-- In `board[i]["a"].score` the last item of the board is meant, and in it the field of an object
    under a key. The entry under another key stays, also if the item is counted from the front. -/
theorem assign_obeys_lensLaws_board :
    let player : Value := .object "Player" [("score", .int 7)]
    let board : Value := .list [.nothing, .dict [(.text "a", player), (.text "b", .int 1)]]
    let env : Env Unit := { vars := ⟨[("board", board), ("i", .int (-1))]⟩, host := () }
    let target : Expr :=
      .field (.index (.index (.name "board") (.name "i")) (.literal (.text "a"))) "score"
    target.IsTarget "board" env ∧
      ∃ env' board', (target.assign (.int 8)).run.run env = (.ok (), env') ∧
        target.LensLaws "board" (.int 8) env env' ∧ env'.get? "board" = some board' ∧
        env'.partAlong board' [.index (.int 1), .index (.text "b")] = .ok (.int 1) := by
  intro player board env target
  have htarget : target.IsTarget "board" env := by
    refine ⟨rfl, by decide, by decide, ?_, Env.pureFunctions_of_empty rfl rfl⟩
    refine List.forall_mem_cons.2 ⟨?_, List.forall_mem_singleton.2 ?_⟩
    all_goals
      rintro key ⟨⟩
      decide
  obtain ⟨env', board', hrun, hboard'⟩ : ∃ env' board',
      (target.assign (.int 8)).run.run env = (.ok (), env') ∧ env'.get? "board" = some board' :=
    ⟨_, _, rfl, rfl⟩
  have hlaws := (assign_obeys_lensLaws htarget (.int 8)).2 env' hrun
  obtain ⟨path, hpath, hkeeps⟩ := hlaws.keepsRest
  cases hpath
  have hdiverge : Diverge board [.index (.int (-1)), .index (.text "a"), .field "score"]
      [.index (.int 1), .index (.text "b")] :=
    .inside (.item rfl) (.item (i := 1) rfl rfl) (.apart _ _ (.entry (by decide)))
  exact ⟨htarget, env', board', hrun, hlaws, hboard',
    hkeeps.partAlong_eq rfl hboard' (by decide) (by decide) hdiverge⟩

end Expr

end StepScript
