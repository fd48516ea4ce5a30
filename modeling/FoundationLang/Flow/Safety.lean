/-
**What an accepted function body does on every path.**

The analysis of `sema.cpp` walks over a body once. Here is what that buys for every path through the
generated code, and where the single pass overlooks something:

* use after move — `MovesSeen` names the steps the walk does not look at: a jump out of a round that
  has consumed an outer local, the callee of a function value, a capture by reference, an operand that
  is read again, the place of an assignment whose value has run, the timeout of a `select` whose
  operations have run;
* unhandled results — `ResultsSeen`, likewise;
* drop lists — exact for every exit, but for one out of a timeout. A `select` declares the storage of
  its operations before it is filled, and lists it from then on.
-/

import FoundationLang.Flow.Walk

namespace FoundationLang.Flow

open Library List

/-! ### Following a path -/

/-- A path through the body of an accepted function, by its choices. -/
def Function.follow (function : Function) (choices : List Bool) : Option (List Action × Exit) :=
  match analyzeFunction function with
  | .ok (body :: _) => (body.follow 100 choices).map fun (trace, exit, _) => (trace, exit)
  | _ => none

theorem Function.follow_path {function : Function} {choices : List Bool} {trace : List Action}
    {exit : Exit} (follows : function.follow choices = some (trace, exit)) :
    ∃ bodies body, analyzeFunction function = .ok bodies ∧ body ∈ bodies ∧ Path body trace exit := by
  rw [Function.follow] at follows
  split at follows
  · rename_i body closures ran
    obtain ⟨⟨_, _, _⟩, path, same⟩ := Option.map_eq_some_iff.mp follows
    cases same
    exact ⟨_, body, ran, mem_cons_self, Code.follow_path path⟩
  · cases follows

/-! ### Moves -/

/-- Between two uses of a local, the first of which consumes it, the local gets a new value. -/
def NoUseAfterMove (trace : List Action) : Prop :=
  ∀ before middle after id action, trace = before ++ .take id :: (middle ++ action :: after) →
    action.uses id = true → ∃ renewal ∈ middle, renewal.renews id = true

/-- The step is one where the walk sees every consumed local. -/
def MovesSeen : Action → Env → Prop
  | .access id, env => env.taken id = false
  | .leaveLoop _, env => ∀ mark ∈ env.marks.head?, ∀ slot ∈ env.outerScopes.flatten,
      env.taken slot.id = true → mark.taken slot.id = true
  | .place simple _, _ | .timeout simple _, _ => simple = true
  | _, _ => True

instance (env : Env) : DecidablePred (MovesSeen · env)
  | .access id => inferInstanceAs (Decidable (env.taken id = false))
  | .leaveLoop _ => inferInstanceAs (Decidable (∀ mark ∈ env.marks.head?,
      ∀ slot ∈ env.outerScopes.flatten, env.taken slot.id = true → mark.taken slot.id = true))
  | .place simple _ | .timeout simple _ => inferInstanceAs (Decidable (simple = true))
  | .enter | .declare _ | .read _ | .take _ | .store _ _ | .leave _ | .leaveFunction _ | .loopStart
  | .loopEnd | .tested _ | .skipped _ | .guardFailed _ => .isTrue trivial

theorem meets_moves : Track.moves.meets = MovesSeen := by
  funext action env
  cases action <;> rfl

/-- A consumed local stays so until it gets a new value. -/
theorem taken_run {id : Nat} {trace : List Action} {env : Env} (taken : env.taken id = true)
    (kept : ∀ action ∈ trace, action.renews id = false) :
    (run Env.step env trace).taken id = true := by
  induction trace generalizing env with
  | nil => exact taken
  | cons action rest ih =>
    refine ih ?_ fun y mem => kept y (mem_cons_of_mem _ mem)
    have here := kept action mem_cons_self
    cases action with
    | declare slot | store slot mustUse =>
      simp only [Action.renews, beq_eq_false_iff_ne] at here
      simp only [Env.step, Function.update_of_ne (Ne.symm here), taken]
    | take y =>
      simp only [Env.step]
      by_cases same : id = y
      · rw [same, Function.update_self]
      · rw [Function.update_of_ne same, taken]
    | _ => exact taken

theorem noUseAfterMove_of_along {trace : List Action} {env : Env}
    (safe : Along Env.step MoveSafe env trace) : NoUseAfterMove trace := by
  intro before m after id action split uses
  by_contra kept
  have free : (run Env.step env (before ++ .take id :: m)).taken id = false := by
    have here := along_iff.mp safe (before ++ .take id :: m) action after (by simp [split])
    cases action with
    | read y | take y | access y =>
      rw [Action.uses, beq_iff_eq] at uses
      rwa [MoveSafe, uses] at here
    | _ => cases uses
  have taken : (run Env.step env (before ++ .take id :: m)).taken id = true := by
    rw [run_append, run_cons]
    refine taken_run (by simp [Env.step]) fun action mem => ?_
    rw [← Bool.not_eq_true]
    exact fun renews => kept ⟨action, mem, renews⟩
  rw [taken] at free
  cases free

/-- **Move safety.** On a path through an accepted body, or through one of its closures, whose steps
the walk all sees, no local is used after it was consumed. -/
theorem analyzeFunction_moves {function : Function} {bodies : List (Code Action)}
    {body : Code Action} {trace : List Action} {exit : Exit}
    (accepted : analyzeFunction function = .ok bodies) (mem : body ∈ bodies)
    (path : Path body trace exit) (seen : Along Env.step MovesSeen {} trace) :
    NoUseAfterMove trace := by
  rw [← meets_moves] at seen
  have sound := analyzeFunction_sound .moves accepted body mem
  exact noUseAfterMove_of_along (sound {} trace exit path rfl seen).1

/-- `var x = fresh; while c { discard x; x = fresh }`. -/
def consumeEachRound : Function where
  parameters := [⟨"c", .value {}⟩]
  body := .ofList [
    .variableStatement ⟨"x", .value { requiresDrop := true }⟩ (.literal { requiresDrop := true }) [],
    .whileStatement (.name "c") (.ofList [.discard (.name "x") [],
      .assignName "x" (.literal { requiresDrop := true })])]

/-- Two rounds, each of which consumes `x`. -/
theorem consumeEachRound_moves : ∃ bodies body trace exit,
    analyzeFunction consumeEachRound = .ok bodies ∧ body ∈ bodies ∧ Path body trace exit
      ∧ Along Env.step MovesSeen {} trace ∧ trace.count (.take 1) = 2 ∧ NoUseAfterMove trace := by
  have follows : consumeEachRound.follow [true, true] = some ([.enter,
      .declare { id := 0, requiresDrop := false }, .declare { id := 1, requiresDrop := true },
      .read 0, .tested [], .loopStart, .enter, .take 1, .store 1 false, .leave [], .loopEnd,
      .read 0, .tested [], .loopStart, .enter, .take 1, .store 1 false, .leave [], .loopEnd,
      .read 0, .tested [], .leave [1]], .normal) := by
    decide +kernel
  obtain ⟨bodies, body, accepted, mem, path⟩ := Function.follow_path follows
  refine ⟨bodies, body, _, _, accepted, mem, path, by decide +kernel, by decide, ?_⟩
  exact analyzeFunction_moves accepted mem path (by decide +kernel)

/-- `while c { if c { discard x; break } } discard x`, with `x` an owned parameter. -/
def breakAfterMove : Function where
  parameters := [⟨"c", .value {}⟩, ⟨"x", .value { requiresDrop := true }⟩]
  body := .ofList [
    .whileStatement (.name "c") (.ofList [
      .ifStatement (.name "c") (.ofList [.discard (.name "x") [], .breakStatement]) .none]),
    .discard (.name "x") []]

/-- The path that breaks consumes `x` a second time. -/
theorem breakAfterMove_accepted : ∃ bodies body trace exit,
    analyzeFunction breakAfterMove = .ok bodies ∧ body ∈ bodies ∧ Path body trace exit
      ∧ ¬ NoUseAfterMove trace := by
  have follows : breakAfterMove.follow [true, true] = some ([.enter,
      .declare { id := 0, requiresDrop := false }, .declare { id := 1, requiresDrop := true },
      .read 0, .tested [], .loopStart, .enter, .read 0, .enter, .take 1, .leaveLoop [], .take 1,
      .leave [1]], .normal) := by
    decide +kernel
  obtain ⟨bodies, body, accepted, mem, path⟩ := Function.follow_path follows
  refine ⟨bodies, body, _, _, accepted, mem, path, fun safe => ?_⟩
  obtain ⟨_, between, renews⟩ := safe [.enter, .declare { id := 0, requiresDrop := false },
    .declare { id := 1, requiresDrop := true }, .read 0, .tested [], .loopStart, .enter, .read 0,
    .enter] [.leaveLoop []] [.leave [1]] 1 (.take 1) rfl rfl
  rw [mem_singleton.mp between] at renews
  cases renews

/-- `discard s + pass($s)`, with `s` an owned parameter. -/
def passSelf : Function where
  parameters := [⟨"s", .value { requiresDrop := true }⟩]
  body := .ofList [.discard (.binary (.name "s") (.call (.ofUse .consume [.name "s"])
    { requiresDrop := true }) { requiresDrop := true }) []]

-- The left operand is read where the sum is computed.
example : passSelf.follow [] = some ([.enter, .declare { id := 0, requiresDrop := true }, .read 0,
    .take 0, .access 0, .leave [0]], .normal) := by
  decide +kernel

/-! ### Results -/

/-- The step is one where the walk sees every unhandled `Result`. -/
def ResultsSeen : Action → Env → Prop
  | .leaveLoop _, env => env.marks ≠ [] ∧ ∀ mark ∈ env.marks.head?,
      ∀ slot ∈ env.outerScopes.flatten, env.pending slot.id = true → mark.pending slot.id = true
  | .loopEnd, env => ∀ mark ∈ env.marks.head?,
      ∀ slot ∈ env.outerScopes.flatten, env.pending slot.id = true → mark.pending slot.id = true
  | .tested ids, env | .skipped ids, env | .guardFailed ids, env => ∀ id ∈ ids, env.pending id = false
  | .place simple ids, env | .timeout simple ids, env =>
    simple = true ∧ ∀ id ∈ ids, env.pending id = false
  | _, _ => True

instance (env : Env) : DecidablePred (ResultsSeen · env)
  | .leaveLoop _ =>
    have : Decidable (env.marks ≠ []) := decidable_of_iff (env.marks.isEmpty = false) (by simp)
    inferInstanceAs (Decidable (env.marks ≠ [] ∧ ∀ mark ∈ env.marks.head?,
      ∀ slot ∈ env.outerScopes.flatten, env.pending slot.id = true → mark.pending slot.id = true))
  | .loopEnd => inferInstanceAs (Decidable (∀ mark ∈ env.marks.head?,
      ∀ slot ∈ env.outerScopes.flatten, env.pending slot.id = true → mark.pending slot.id = true))
  | .tested ids | .skipped ids | .guardFailed ids =>
    inferInstanceAs (Decidable (∀ id ∈ ids, env.pending id = false))
  | .place simple ids | .timeout simple ids =>
    inferInstanceAs (Decidable (simple = true ∧ ∀ id ∈ ids, env.pending id = false))
  | .enter | .declare _ | .read _ | .take _ | .access _ | .store _ _ | .leave _ | .leaveFunction _
  | .loopStart => .isTrue trivial

theorem meets_results : Track.results.meets = ResultsSeen := by
  funext action env
  cases action <;> rfl

/-- **Results are handled.** On a path through an accepted body, or through one of its closures,
whose steps the walk all sees, no unhandled `Result` is left behind or overwritten. -/
theorem analyzeFunction_results {function : Function} {bodies : List (Code Action)}
    {body : Code Action} {trace : List Action} {exit : Exit}
    (accepted : analyzeFunction function = .ok bodies) (mem : body ∈ bodies)
    (path : Path body trace exit) (seen : Along Env.step ResultsSeen {} trace) :
    Along Env.step ResultSafe {} trace := by
  rw [← meets_results] at seen
  have sound := analyzeFunction_sound .results accepted body mem
  exact (sound {} trace exit path rfl seen).1

/-- `var r = attempt; while c { discard r; r = attempt }; discard r`. -/
def retryEachRound : Function where
  parameters := [⟨"c", .value {}⟩]
  body := .ofList [
    .variableStatement ⟨"r", .value { isResult := true }⟩ (.literal { isResult := true }) [],
    .whileStatement (.name "c") (.ofList [.discard (.name "r") [],
      .assignName "r" (.literal { isResult := true })]),
    .discard (.name "r") []]

/-- Two rounds, each of which handles `r` before it is overwritten. -/
theorem retryEachRound_results : ∃ bodies body trace exit,
    analyzeFunction retryEachRound = .ok bodies ∧ body ∈ bodies ∧ Path body trace exit
      ∧ Along Env.step ResultsSeen {} trace ∧ trace.count (.store 1 true) = 2
      ∧ Along Env.step ResultSafe {} trace := by
  have follows : retryEachRound.follow [true, true] = some ([.enter,
      .declare { id := 0, requiresDrop := false },
      .declare { id := 1, requiresDrop := false, mustUse := true },
      .read 0, .tested [], .loopStart, .enter, .read 1, .store 1 true, .leave [], .loopEnd,
      .read 0, .tested [], .loopStart, .enter, .read 1, .store 1 true, .leave [], .loopEnd,
      .read 0, .tested [], .read 1, .leave []], .normal) := by
    decide +kernel
  obtain ⟨bodies, body, accepted, mem, path⟩ := Function.follow_path follows
  refine ⟨bodies, body, _, _, accepted, mem, path, by decide +kernel, by decide, ?_⟩
  exact analyzeFunction_results accepted mem path (by decide +kernel)

/-- `var r = attempt; discard r; while c { if c { r = attempt; break } }`. -/
def breakAfterStore : Function where
  parameters := [⟨"c", .value {}⟩]
  body := .ofList [
    .variableStatement ⟨"r", .value { isResult := true }⟩ (.literal { isResult := true }) [],
    .discard (.name "r") [],
    .whileStatement (.name "c") (.ofList [
      .ifStatement (.name "c") (.ofList [.assignName "r" (.literal { isResult := true }),
        .breakStatement]) .none])]

/-- The path that breaks leaves the new `Result` behind. -/
theorem breakAfterStore_accepted : ∃ bodies body trace exit,
    analyzeFunction breakAfterStore = .ok bodies ∧ body ∈ bodies ∧ Path body trace exit
      ∧ ¬ Along Env.step ResultSafe {} trace := by
  have follows : breakAfterStore.follow [true, true] = some ([.enter,
      .declare { id := 0, requiresDrop := false },
      .declare { id := 1, requiresDrop := false, mustUse := true },
      .read 1, .read 0, .tested [], .loopStart, .enter, .read 0, .enter, .store 1 true,
      .leaveLoop [], .leave []], .normal) := by
    decide +kernel
  obtain ⟨bodies, body, accepted, mem, path⟩ := Function.follow_path follows
  exact ⟨bodies, body, _, _, accepted, mem, path, by decide +kernel⟩

/-! ### Drop lists -/

/-- The step leaves no loop other than one of the same body, nor anything by way of a timeout. -/
def JumpsInside : Action → Env → Prop
  | .leaveLoop _, env => env.marks ≠ []
  | .timeout simple _, _ => simple = true
  | _, _ => True

instance (env : Env) : DecidablePred (JumpsInside · env)
  | .leaveLoop _ => decidable_of_iff (env.marks.isEmpty = false) (by simp [JumpsInside])
  | .timeout simple _ => inferInstanceAs (Decidable (simple = true))
  | .enter | .declare _ | .read _ | .take _ | .access _ | .store _ _ | .leave _ | .leaveFunction _
  | .loopStart | .loopEnd | .tested _ | .skipped _ | .guardFailed _ | .place _ _ => .isTrue trivial

theorem meets_drops : Track.drops.meets = JumpsInside := by
  funext action env
  cases action <;> rfl

/-- The locals that have values. -/
def initialised (scopes : List (List Slot)) : List (List Slot) :=
  scopes.map (·.filter (·.initialised))

/-- The drop list of an exit is what the scopes being left hold and what is initialised. -/
def DropExact : Action → Env → Prop
  | .leave drops, env => drops = droppable (initialised (env.scopes.take 1)) ∧ drops.Nodup
  | .leaveLoop drops, env => drops = droppable (initialised env.loopScopes) ∧ drops.Nodup
  | .leaveFunction drops, env => drops = droppable (initialised env.scopes) ∧ drops.Nodup
  | _, _ => True

instance (env : Env) : DecidablePred (DropExact · env)
  | .leave drops =>
    inferInstanceAs (Decidable (drops = droppable (initialised (env.scopes.take 1)) ∧ drops.Nodup))
  | .leaveLoop drops =>
    inferInstanceAs (Decidable (drops = droppable (initialised env.loopScopes) ∧ drops.Nodup))
  | .leaveFunction drops =>
    inferInstanceAs (Decidable (drops = droppable (initialised env.scopes) ∧ drops.Nodup))
  | .enter | .declare _ | .read _ | .take _ | .access _ | .store _ _ | .loopStart | .loopEnd
  | .tested _ | .skipped _ | .guardFailed _ | .place _ _ | .timeout _ _ => .isTrue trivial

/-- No open local is the storage of a `select` operation that may be empty. -/
def AllInitialised (env : Env) : Prop :=
  ∀ scope ∈ env.scopes, ∀ slot ∈ scope, slot.initialised = true

theorem initialised_eq {scopes : List (List Slot)}
    (all : ∀ scope ∈ scopes, ∀ slot ∈ scope, slot.initialised = true) :
    initialised scopes = scopes := by
  rw [initialised, map_congr_left fun scope mem => filter_eq_self.mpr (all scope mem),
    map_id']

theorem dropExact_of_initialised {action : Action} {env : Env} (safe : DropSafe action env)
    (all : AllInitialised env) : DropExact action env := by
  have inside {scopes : List (List Slot)} (sub : ∀ scope ∈ scopes, scope ∈ env.scopes) :
      initialised scopes = scopes :=
    initialised_eq fun scope mem => all scope (sub scope mem)
  cases action with
  | leave =>
    rw [DropExact, inside fun _ => mem_of_mem_take]
    exact safe
  | leaveLoop =>
    rw [DropExact, inside]
    · exact safe
    · intro scope mem
      rw [Env.loopScopes] at mem
      split at mem
      · exact mem
      · exact mem_of_mem_take mem
  | leaveFunction =>
    rw [DropExact, inside fun _ mem => mem]
    exact safe
  | _ => trivial

/-- **Drop lists.** On a path through an accepted body, or through one of its closures, which jumps
out of no loop but its own, every exit drops exactly what the scopes being left hold, inner scopes and
later declarations first. Without an empty storage of a `select` that is what is initialised. -/
theorem analyzeFunction_drops {function : Function} {bodies : List (Code Action)}
    {body : Code Action} {trace : List Action} {exit : Exit}
    (accepted : analyzeFunction function = .ok bodies) (mem : body ∈ bodies)
    (path : Path body trace exit) (inside : Along Env.step JumpsInside {} trace) :
    Along Env.step (fun action env => DropSafe action env
      ∧ (AllInitialised env → DropExact action env)) {} trace := by
  rw [← meets_drops] at inside
  have sound := analyzeFunction_sound .drops accepted body mem
  rw [along_iff]
  intro before action after split
  have safe := along_iff.mp (sound {} trace exit path rfl inside).1 before action after split
  exact ⟨safe, dropExact_of_initialised safe⟩

/-- `const x = fresh; while c { const y = fresh; break }`. -/
def breakInsideScope : Function where
  parameters := [⟨"c", .value {}⟩]
  body := .ofList [
    .variableStatement ⟨"x", .value { requiresDrop := true }⟩ (.literal { requiresDrop := true }) [],
    .whileStatement (.name "c") (.ofList [
      .variableStatement ⟨"y", .value { requiresDrop := true }⟩ (.literal { requiresDrop := true })
        [],
      .breakStatement])]

/-- The path that breaks drops `y` at the `break` and `x` at the end. -/
theorem breakInsideScope_drops : ∃ bodies body trace exit,
    analyzeFunction breakInsideScope = .ok bodies ∧ body ∈ bodies ∧ Path body trace exit
      ∧ Along Env.step JumpsInside {} trace ∧ .leaveLoop [2] ∈ trace ∧ .leave [1] ∈ trace
      ∧ Along Env.step (fun action env => DropSafe action env
        ∧ (AllInitialised env → DropExact action env)) {} trace := by
  have follows : breakInsideScope.follow [true] = some ([.enter,
      .declare { id := 0, requiresDrop := false }, .declare { id := 1, requiresDrop := true },
      .read 0, .tested [], .loopStart, .enter, .declare { id := 2, requiresDrop := true },
      .leaveLoop [2], .leave [1]], .normal) := by
    decide +kernel
  obtain ⟨bodies, body, accepted, mem, path⟩ := Function.follow_path follows
  refine ⟨bodies, body, _, _, accepted, mem, path, by decide +kernel, by decide, by decide, ?_⟩
  exact analyzeFunction_drops accepted mem path (by decide +kernel)

/-- `select { const value = r.receive(): return; error: }` in a task, with `r` an owned parameter. The
receive keeps its `Result` in a storage of the task. -/
def selectAndReturn : Function where
  parameters := [⟨"r", .value { requiresDrop := true }⟩]
  body := .ofList [.select .none
    (.cons (.operands (.ofUse .inspect [.name "r"]) { requiresDrop := true, isResult := true } false
      true) [⟨{ requiresDrop := true, isResult := true }, true⟩] .nil)
    (.cons (some ⟨"value", .value { requiresDrop := true }⟩)
      (.ofList [.returnStatement .none false])
      (.cons (some ⟨"error", .value {}⟩) .nil .nil))]

/-- The branch that returns lists the storage, which nothing has filled. -/
theorem selectAndReturn_lists : ∃ bodies body trace exit,
    analyzeFunction selectAndReturn = .ok bodies ∧ body ∈ bodies ∧ Path body trace exit
      ∧ ¬ Along Env.step DropExact {} trace := by
  have follows : selectAndReturn.follow [true] = some ([.enter,
      .declare { id := 0, requiresDrop := true }, .timeout true [], .read 0,
      .declare { id := 1, requiresDrop := true, initialised := false }, .access 0, .enter,
      .declare { id := 2, requiresDrop := true }, .leaveFunction [2, 1, 0]], .ret) := by
    decide +kernel
  obtain ⟨bodies, body, accepted, mem, path⟩ := Function.follow_path follows
  exact ⟨bodies, body, _, _, accepted, mem, path, by decide +kernel⟩

end FoundationLang.Flow
