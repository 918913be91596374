import Procedural.Proofs.Execution.Watched

/-!
# Reasoning about actions

An action ends, from a given machine, in a value that satisfies one condition or for a
reason that satisfies another.  Of a watched action one can also say what holds at each
of its moments, as long as what happens before is allowed.  Both notions have one rule for
each way of building actions.
-/

namespace Procedural

variable {α β : Type}

/-- From this machine the action ends with a value and a machine as required, or stops for a
reason and on a machine as allowed. -/
def Exec.Ends (action : Exec α) (machine : Machine) (post : α → Machine → Prop)
    (stopped : Stop → Machine → Prop) : Prop :=
  match action machine with
  | (.ok value, machine) => post value machine
  | (.error stop, machine) => stopped stop machine

namespace Exec

variable {machine : Machine} {post : α → Machine → Prop} {stopped : Stop → Machine → Prop}

theorem Ends.pure {value : α} (holds : post value machine) :
    Ends (pure value) machine post stopped :=
  holds

theorem Ends.bind {action : Exec β} {next : β → Exec α}
    (ends : Ends action machine (fun value after => Ends (next value) after post stopped)
      stopped) :
    Ends (action >>= next) machine post stopped := by
  change match Exec.bind action next machine with
    | (.ok value, machine) => post value machine
    | (.error stop, machine) => stopped stop machine
  unfold Exec.bind
  unfold Ends at ends
  cases ended : action machine with
  | mk result after =>
      rw [ended] at ends
      cases result with
      | ok value => exact ends
      | error reason => exact ends

theorem Ends.imp {action : Exec α} {post' : α → Machine → Prop} {stopped' : Stop → Machine → Prop}
    (ends : Ends action machine post stopped)
    (implies : ∀ value after, post value after → post' value after)
    (impliesStopped : ∀ stop after, stopped stop after → stopped' stop after) :
    Ends action machine post' stopped' := by
  unfold Ends at ends ⊢
  cases ended : action machine with
  | mk result after =>
      rw [ended] at ends
      cases result with
      | ok value => exact implies value after ends
      | error reason => exact impliesStopped reason after ends

theorem Ends.self (action : Exec α) (machine : Machine) :
    Ends action machine (fun value after => action machine = (.ok value, after))
      fun stop after => action machine = (.error stop, after) := by
  unfold Ends
  split <;> assumption

/-- What is required and allowed alike is what holds afterwards. -/
theorem Ends.leaves_iff {action : Exec α} {post : Machine → Prop} :
    Ends action machine (fun _ => post) (fun _ => post) ↔ post (action machine).2 := by
  unfold Ends
  split <;> rename_i ended <;> rw [ended]

theorem Ends.of_ok {action : Exec α} (ends : Ends action machine post stopped) {value : α}
    (succeeds : (action machine).1 = .ok value) : post value (action machine).2 := by
  unfold Ends at ends
  split at ends
  · rename_i value' after ended
    rw [ended] at succeeds ⊢
    obtain rfl : value' = value := Except.ok.inj succeeds
    exact ends
  · rename_i ended
    rw [ended] at succeeds
    cases succeeds

theorem Ends.stop {reason : Stop} (allowed : stopped reason machine) :
    Ends (stop reason : Exec α) machine post stopped :=
  allowed

theorem Ends.raise {fault : RuntimeFault} {offset : Option Nat}
    (allowed : stopped (.error ⟨fault, offset⟩) machine) :
    Ends (raise fault offset : Exec α) machine post stopped :=
  allowed

theorem Ends.look {view : Machine → α} (holds : post (view machine) machine) :
    Ends (look view) machine post stopped :=
  holds

theorem Ends.modify {change : Machine → Machine} {post : Unit → Machine → Prop}
    (holds : post () (change machine)) : Ends (modify change) machine post stopped :=
  holds

theorem Ends.liftAt {offset : Nat} {outcome : Except RuntimeFault α}
    (holds : ∀ value, outcome = .ok value → post value machine)
    (allowed : ∀ fault, outcome = .error fault →
      stopped (.error ⟨fault, some offset⟩) machine) :
    Ends (liftAt offset outcome) machine post stopped := by
  cases outcome with
  | ok value => exact holds value rfl
  | error fault => exact allowed fault rfl

theorem Ends.findVariable {name : String} {offset : Nat} {post : Binding → Machine → Prop}
    (holds : ∀ binding, machine.environment.findVariable? name = some binding →
      post binding machine)
    (allowed : machine.environment.findVariable? name = none →
      stopped (.error ⟨.undefinedVariable name, some offset⟩) machine) :
    Ends (findVariable name offset) machine post stopped := by
  apply Ends.bind
  apply Ends.look
  cases found : machine.environment.findVariable? name with
  | none => exact allowed found
  | some binding => exact holds binding found

theorem Ends.findFunction {name : String} {arity offset : Nat}
    {post : Callable → Machine → Prop}
    (holds : ∀ callable, machine.environment.findFunction? name arity = some callable →
      post callable machine)
    (allowed : machine.environment.findFunction? name arity = none →
      stopped (.error ⟨.undefinedFunction name arity, some offset⟩) machine) :
    Ends (findFunction name arity offset) machine post stopped := by
  apply Ends.bind
  apply Ends.look
  cases found : machine.environment.findFunction? name arity with
  | none => exact allowed found
  | some callable => exact holds callable found

theorem Ends.requireMutable {name : String} {offset : Nat} {post : Unit → Machine → Prop}
    (holds : ∀ binding, machine.environment.findVariable? name = some binding →
      binding.mutable = true → post () machine)
    (immutable : ∀ binding, machine.environment.findVariable? name = some binding →
      binding.mutable = false → stopped (.error ⟨.immutableAssignment name, some offset⟩) machine)
    (undefined : machine.environment.findVariable? name = none →
      stopped (.error ⟨.undefinedVariable name, some offset⟩) machine) :
    Ends (requireMutable name offset) machine post stopped := by
  apply Ends.bind
  refine Ends.findVariable (fun binding found => ?_) undefined
  by_cases changes : binding.mutable = true
  · rw [if_pos changes]
    exact holds binding found changes
  · rw [if_neg changes]
    exact immutable binding found (by simpa using changes)

theorem Ends.declare {name : String} {offset : Option Nat} {binding : Binding}
    {post : Unit → Machine → Prop}
    (holds : machine.environment.definesVariable name = false →
      post () { machine with environment := machine.environment.defineVariable name binding })
    (allowed : machine.environment.definesVariable name = true →
      stopped (.error ⟨.alreadyDefined name, offset⟩) machine) :
    Ends (declare name offset binding) machine post stopped := by
  apply Ends.bind
  apply Ends.look
  cases defines : machine.environment.definesVariable name with
  | false => exact holds defines
  | true => exact allowed defines

end Exec

section Moments

variable {allowed always : Moment → Prop} {moments later : List Moment}

/-- One condition holds at each moment up to the first that is not allowed. -/
def Lasts (allowed always : Moment → Prop) : List Moment → Prop
  | [] => True
  | moment :: rest => always moment ∧ (allowed moment → Lasts allowed always rest)

theorem lasts_append :
    Lasts allowed always (moments ++ later) ↔ Lasts allowed always moments ∧
      ((∀ moment ∈ moments, allowed moment) → Lasts allowed always later) := by
  induction moments with
  | nil => simp [Lasts]
  | cons moment rest induction =>
      rw [List.cons_append, Lasts, Lasts, induction, List.forall_mem_cons, imp_and, and_imp,
        and_assoc]

theorem Lasts.of_append {earlier : List Moment} {moment : Moment}
    (lasts : Lasts allowed always (earlier ++ moment :: later))
    (permitted : ∀ before ∈ earlier, allowed before) : always moment :=
  ((lasts_append.mp lasts).2 permitted).1

theorem Lasts.forall_mem (lasts : Lasts allowed always moments)
    (permitted : ∀ moment, allowed moment) : ∀ moment ∈ moments, always moment := by
  intro moment member
  obtain ⟨earlier, later, rfl⟩ := List.append_of_mem member
  exact lasts.of_append fun before _ => permitted before

end Moments

/-- At the moments of the watched action one condition holds and it ends as required or stops as
restricted, as long as all moments before are allowed. -/
structure Watched.Ensures (watched : Watched α) (scene : Scene) (allowed always : Moment → Prop)
    (post : α → Scene → Prop) (stopped : Stop → Scene → Prop) : Prop where
  lasts : Lasts allowed always (watched scene).moments
  ends : (∀ moment ∈ (watched scene).moments, allowed moment) →
    ∀ value, (watched scene).result = .ok value → post value (watched scene).scene
  stops : (∀ moment ∈ (watched scene).moments, allowed moment) →
    ∀ stop, (watched scene).result = .error stop → stopped stop (watched scene).scene

namespace Watched.Ensures

variable {scene : Scene} {allowed always : Moment → Prop} {post : α → Scene → Prop}
variable {stopped : Stop → Scene → Prop}

protected theorem pure {value : α} (holds : post value scene) :
    Ensures (pure value) scene allowed always post stopped := by
  refine ⟨trivial, fun _ other equal => ?_, fun _ stop equal => ?_⟩
  · cases equal
    exact holds
  · cases equal

protected theorem bind {watched : Watched β} {next : β → Watched α}
    (ensures : Ensures watched scene allowed always
      (fun value after => Ensures (next value) after allowed always post stopped) stopped) :
    Ensures (watched >>= next) scene allowed always post stopped := by
  change Ensures (Watched.bind watched next) scene allowed always post stopped
  obtain ⟨lasts₁, ends₁, stops₁⟩ := ensures
  cases shown : watched scene with
  | mk result after moments =>
      rw [shown] at lasts₁ ends₁ stops₁
      cases result with
      | ok value =>
          have split : Watched.bind watched next scene =
              ⟨(next value after).result, (next value after).scene,
                moments ++ (next value after).moments⟩ := by
            simp only [Watched.bind, shown]
          refine ⟨?_, ?_, ?_⟩
          · rw [split]
            exact lasts_append.mpr ⟨lasts₁, fun permitted => (ends₁ permitted value rfl).lasts⟩
          · rw [split]
            intro permitted
            obtain ⟨first, second⟩ := List.forall_mem_append.mp permitted
            exact (ends₁ first value rfl).ends second
          · rw [split]
            intro permitted
            obtain ⟨first, second⟩ := List.forall_mem_append.mp permitted
            exact (ends₁ first value rfl).stops second
      | error reason =>
          have split : Watched.bind watched next scene = ⟨.error reason, after, moments⟩ := by
            simp only [Watched.bind, shown]
          refine ⟨?_, ?_, ?_⟩
          · rw [split]
            exact lasts₁
          · rw [split]
            intro _ value equal
            cases equal
          · rw [split]
            intro permitted stop equal
            cases equal
            exact stops₁ permitted reason rfl

protected theorem imp {watched : Watched α} {post' : α → Scene → Prop}
    {stopped' : Stop → Scene → Prop} (ensures : Ensures watched scene allowed always post stopped)
    (implies : ∀ value after, post value after → post' value after)
    (impliesStopped : ∀ stop after, stopped stop after → stopped' stop after) :
    Ensures watched scene allowed always post' stopped' :=
  ⟨ensures.lasts,
    fun permitted value equal => implies _ _ (ensures.ends permitted value equal),
    fun permitted stop equal => impliesStopped _ _ (ensures.stops permitted stop equal)⟩

theorem stepNoting {note : Typing.Environment → Typing.Environment} {action : Exec α}
    (ends : action.Ends scene.machine
      (fun value machine => always ⟨⟨machine, note scene.types⟩, .acted⟩ ∧
        post value ⟨machine, note scene.types⟩)
      (fun stop machine => always ⟨⟨machine, scene.types⟩, .acted⟩ ∧
        stopped stop ⟨machine, scene.types⟩)) :
    Ensures (Watched.stepNoting note action) scene allowed always post stopped := by
  unfold Exec.Ends at ends
  cases ended : action scene.machine with
  | mk result machine =>
      rw [ended] at ends
      cases result with
      | ok value =>
          have shown : Watched.stepNoting note action scene = ⟨.ok value,
              ⟨machine, note scene.types⟩, [⟨⟨machine, note scene.types⟩, .acted⟩]⟩ := by
            simp [Watched.stepNoting, ended, Except.isOk, Except.toBool]
          refine ⟨?_, ?_, ?_⟩
          · rw [shown]
            exact ⟨ends.1, fun _ => trivial⟩
          · rw [shown]
            intro _ other equal
            cases equal
            exact ends.2
          · rw [shown]
            intro _ stop equal
            cases equal
      | error reason =>
          have shown : Watched.stepNoting note action scene = ⟨.error reason,
              ⟨machine, scene.types⟩, [⟨⟨machine, scene.types⟩, .acted⟩]⟩ := by
            simp [Watched.stepNoting, ended, Except.isOk, Except.toBool]
          refine ⟨?_, ?_, ?_⟩
          · rw [shown]
            exact ⟨ends.1, fun _ => trivial⟩
          · rw [shown]
            intro _ value equal
            cases equal
          · rw [shown]
            intro _ stop equal
            cases equal
            exact ends.2

theorem step {action : Exec α}
    (ends : action.Ends scene.machine
      (fun value machine => always ⟨⟨machine, scene.types⟩, .acted⟩ ∧
        post value ⟨machine, scene.types⟩)
      (fun stop machine => always ⟨⟨machine, scene.types⟩, .acted⟩ ∧
        stopped stop ⟨machine, scene.types⟩)) :
    Ensures (Staging.watched.act action) scene allowed always post stopped :=
  stepNoting ends

theorem defineFunction {function : Function} {post : Unit → Scene → Prop}
    (ends : (Exec.defineFunction function).Ends scene.machine
      (fun _ machine =>
        let types := scene.types.defineFunction function.name function.arity
          (function.signature.getD default)
        always ⟨⟨machine, types⟩, .acted⟩ ∧ post () ⟨machine, types⟩)
      (fun stop machine => always ⟨⟨machine, scene.types⟩, .acted⟩ ∧
        stopped stop ⟨machine, scene.types⟩)) :
    Ensures (Staging.watched.defineFunction function) scene allowed always post stopped := by
  change Ensures (Watched.defineFunction function) scene allowed always post stopped
  apply stepNoting
  exact ends

theorem report {event : Event} {post : Unit → Scene → Prop} (now : always ⟨scene, event⟩)
    (holds : allowed ⟨scene, event⟩ → post () scene) :
    Ensures (Watched.report event) scene allowed always post stopped := by
  refine ⟨⟨now, fun _ => trivial⟩, fun permitted value _ => ?_, fun _ stop equal => ?_⟩
  · exact holds (permitted _ (List.mem_singleton.mpr rfl))
  · cases equal

theorem recording {event : Value → Event} {watched : Watched Value}
    {post : Value → Scene → Prop}
    (ensures : Ensures watched scene allowed always
      (fun value after => always ⟨after, event value⟩ ∧ post value after) stopped) :
    Ensures (Watched.recording event watched) scene allowed always post stopped := by
  apply Ensures.bind
  apply ensures.imp
  · rintro value after ⟨now, holds⟩
    exact Ensures.bind (report now fun _ => .pure holds)
  · exact fun _ _ => id

/-- An action is surrounded by a change of the scene and its reversal. -/
theorem enclosed {surrounding watched : Watched α} {entered : Scene} {leave : Scene → Scene}
    (shown : surrounding scene = ⟨(watched entered).result, leave (watched entered).scene,
      ⟨entered, .acted⟩ :: ((watched entered).moments ++
        [⟨leave (watched entered).scene, .acted⟩])⟩)
    (now : always ⟨entered, .acted⟩)
    (ensures : Ensures watched entered allowed always
      (fun value after => always ⟨leave after, .acted⟩ ∧ post value (leave after))
      (fun stop after => always ⟨leave after, .acted⟩ ∧ stopped stop (leave after))) :
    Ensures surrounding scene allowed always post stopped := by
  obtain ⟨inside, ends, stops⟩ := ensures
  have left (permitted : ∀ moment ∈ (watched entered).moments, allowed moment) :
      always ⟨leave (watched entered).scene, .acted⟩ := by
    cases result : (watched entered).result with
    | ok value => exact (ends permitted value result).1
    | error reason => exact (stops permitted reason result).1
  refine ⟨?_, ?_, ?_⟩
  · rw [shown]
    exact ⟨now, fun _ => lasts_append.mpr
      ⟨inside, fun permitted => ⟨left permitted, fun _ => trivial⟩⟩⟩
  · rw [shown]
    intro permitted value equal
    have within := (List.forall_mem_append.mp (List.forall_mem_cons.mp permitted).2).1
    exact (ends within value equal).2
  · rw [shown]
    intro permitted reason equal
    have within := (List.forall_mem_append.mp (List.forall_mem_cons.mp permitted).2).1
    exact (stops within reason equal).2

theorem inFrame {outer : Environment → Nat} {watched : Watched α}
    (entered : always ⟨scene.enter (outer scene.machine.environment), .acted⟩)
    (ensures : Ensures watched (scene.enter (outer scene.machine.environment)) allowed always
      (fun value after => always ⟨after.leave, .acted⟩ ∧ post value after.leave)
      (fun stop after => always ⟨after.leave, .acted⟩ ∧ stopped stop after.leave)) :
    Ensures (Watched.inFrame outer watched) scene allowed always post stopped :=
  enclosed rfl entered ensures

theorem inCall {home : Nat} {watched : Watched α} (deeper : always ⟨scene.deeper, .acted⟩)
    (ensures : Ensures (Watched.inFrame (fun _ => home) watched) scene.deeper allowed always
      (fun value after => always ⟨after.shallower, .acted⟩ ∧ post value after.shallower)
      (fun stop after => always ⟨after.shallower, .acted⟩ ∧ stopped stop after.shallower)) :
    Ensures (Watched.inCall home watched) scene allowed always post stopped :=
  enclosed rfl deeper ensures

end Watched.Ensures

end Procedural
