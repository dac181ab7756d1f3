import IndexFleet.Proofs.Execution.Refinement

namespace IndexFleet

-- What a run brings about: commands with their calls, in waves, and a result.
structure Effect where
  waves : List WaveRun
  result : Except Failure Unit

def Run.effect (run : Run) : Effect := ⟨run.waves, run.result⟩

def Course.effect (course : Course) : Effect := ⟨course.waves, course.result⟩

namespace Effect

def nothing : Effect := ⟨[], .ok ()⟩

-- One effect after another. An effect that fails is the last one.
def andThen (first second : Effect) : Effect :=
  match first.result with
  | .ok () => ⟨first.waves ++ second.waves, second.result⟩
  | .error _ => first

def inTurn (effects : List Effect) : Effect := effects.foldr andThen nothing

-- The same where each effect may be one of many.
inductive InTurn : List (Effect → Prop) → Effect → Prop
  | nil : InTurn [] nothing
  | stop {may : Effect → Prop} {rest : List (Effect → Prop)} {first : Effect} {failure : Failure}
      (hfirst : may first) (hfailure : first.result = .error failure) : InTurn (may :: rest) first
  | goOn {may : Effect → Prop} {rest : List (Effect → Prop)} {first next : Effect}
      (hfirst : may first) (hok : first.result = .ok ()) (hnext : InTurn rest next) :
      InTurn (may :: rest) (first.andThen next)

variable {effect first next : Effect} {failure : Failure}

theorem andThen_of_ok (hok : first.result = .ok ()) :
    first.andThen next = ⟨first.waves ++ next.waves, next.result⟩ := by
  simp only [andThen, hok]

theorem andThen_of_error (hfailure : first.result = .error failure) :
    first.andThen next = first := by
  simp only [andThen, hfailure]

theorem nothing_andThen (next : Effect) : nothing.andThen next = next := rfl

theorem andThen_assoc (first second third : Effect) :
    (first.andThen second).andThen third = first.andThen (second.andThen third) := by
  cases hfirst : first.result with
  | error failure => simp only [andThen_of_error hfirst]
  | ok =>
      cases hsecond : second.result with
      | error failure =>
          simp only [andThen, hfirst, hsecond]
      | ok => simp only [andThen, hfirst, hsecond, List.append_assoc]

-- Where there is no choice, there is one effect in turn.
theorem InTurn.eq_inTurn {α : Type} {items : List α} {make : α → Effect}
    (h : InTurn (items.map fun item effect => make item = effect) effect) :
    effect = inTurn (items.map make) := by
  induction items generalizing effect with
  | nil =>
      cases h
      rfl
  | cons item items ih =>
      cases h with
      | stop hfirst hfailure =>
          rw [List.map_cons, hfirst]
          exact (andThen_of_error hfailure).symm
      | goOn hfirst hok hnext =>
          rw [List.map_cons, hfirst, ih hnext]
          rfl

theorem inTurn_singleton {may : Effect → Prop} : InTurn [may] effect ↔ may effect := by
  constructor
  · intro hturn
    cases hturn with
    | stop hfirst _ => exact hfirst
    | @goOn _ _ first next hfirst hok hnext =>
        cases hnext
        have hsame : first.andThen nothing = first := by
          rw [andThen_of_ok hok, nothing, List.append_nil, ← hok]
        exact hsame.symm ▸ hfirst
  · intro hmay
    cases hresult : effect.result with
    | error failure => exact .stop hmay hresult
    | ok =>
        have hturn := InTurn.goOn hmay hresult .nil
        rwa [andThen_of_ok hresult, nothing, List.append_nil, ← hresult] at hturn

-- Effects that are the same, but for failures of two kinds in place of each other.
structure AgreesUpTo (swapped : Failure → Failure → Prop) (effect same : Effect) : Prop where
  waves : effect.waves = same.waves
  result : effect.result = same.result ∨ ∃ failure other, swapped failure other ∧
    effect.result = .error failure ∧ same.result = .error other

variable {swapped : Failure → Failure → Prop} {same : Effect}

theorem agreesUpTo_refl (effect : Effect) : effect.AgreesUpTo swapped effect :=
  ⟨rfl, .inl rfl⟩

theorem AgreesUpTo.eq_of_ok (h : effect.AgreesUpTo swapped same) (hok : effect.result = .ok ()) :
    same = effect := by
  rcases h.result with hsame | ⟨failure, other, _, hfailure, _⟩
  · obtain ⟨waves, result⟩ := same
    obtain rfl := h.waves
    obtain rfl := hsame
    rfl
  · exact nomatch hok.symm.trans hfailure

theorem AgreesUpTo.exists_error (h : effect.AgreesUpTo swapped same)
    (hfailure : effect.result = .error failure) : ∃ other, same.result = .error other := by
  rcases h.result with hsame | ⟨_, other, _, _, hother⟩
  · exact ⟨failure, hsame.symm.trans hfailure⟩
  · exact ⟨other, hother⟩

theorem AgreesUpTo.andThen (h : next.AgreesUpTo swapped same) (hok : first.result = .ok ()) :
    (first.andThen next).AgreesUpTo swapped (first.andThen same) := by
  rw [andThen_of_ok hok, andThen_of_ok hok]
  exact ⟨congrArg (first.waves ++ ·) h.waves, h.result⟩

theorem AgreesUpTo.eq_of_ok_right (h : effect.AgreesUpTo swapped same)
    (hok : same.result = .ok ()) : effect = same := by
  rcases h.result with hsame | ⟨_, other, _, _, hother⟩
  · exact (h.eq_of_ok (hsame.trans hok)).symm
  · exact nomatch hok.symm.trans hother

theorem AgreesUpTo.exists_error_right (h : effect.AgreesUpTo swapped same)
    (hfailure : same.result = .error failure) : ∃ other, effect.result = .error other := by
  rcases h.result with hsame | ⟨other, _, _, hother, _⟩
  · exact ⟨failure, hsame.trans hfailure⟩
  · exact ⟨other, hother⟩

-- Two ranges of effects that agree, each with one of the other.
structure Alike (swapped : Failure → Failure → Prop) (may might : Effect → Prop) : Prop where
  forth : ∀ effect, may effect → ∃ same, might same ∧ effect.AgreesUpTo swapped same
  back : ∀ same, might same → ∃ effect, may effect ∧ effect.AgreesUpTo swapped same

theorem alike_of_iff {may might : Effect → Prop} (h : ∀ effect, may effect ↔ might effect) :
    Alike swapped may might where
  forth effect heffect := ⟨effect, (h effect).mp heffect, agreesUpTo_refl effect⟩
  back same hsame := ⟨same, (h same).mpr hsame, agreesUpTo_refl same⟩

-- What is alike one by one is alike in turn.
theorem alike_inTurn {sets others : List (Effect → Prop)}
    (hsets : List.Forall₂ (Alike swapped) sets others) :
    Alike swapped (InTurn sets) (InTurn others) := by
  constructor
  · intro effect hturn
    induction hturn generalizing others with
    | nil =>
        cases hsets with
        | nil => exact ⟨nothing, .nil, agreesUpTo_refl nothing⟩
    | @stop may rest first failure hfirst hfailure =>
        cases hsets with
        | cons hone hmore =>
            obtain ⟨same, hsame, hagrees⟩ := hone.forth first hfirst
            obtain ⟨other, hother⟩ := hagrees.exists_error hfailure
            exact ⟨same, .stop hsame hother, hagrees⟩
    | @goOn may rest first next hfirst hok hnext ih =>
        cases hsets with
        | cons hone hmore =>
            obtain ⟨same, hsame, hagrees⟩ := hone.forth first hfirst
            obtain rfl := hagrees.eq_of_ok hok
            obtain ⟨last, hlast, hmatches⟩ := ih hmore
            exact ⟨_, .goOn hsame hok hlast, hmatches.andThen hok⟩
  · intro same hturn
    induction hturn generalizing sets with
    | nil =>
        cases hsets with
        | nil => exact ⟨nothing, .nil, agreesUpTo_refl nothing⟩
    | @stop might rest first failure hfirst hfailure =>
        cases hsets with
        | cons hone hmore =>
            obtain ⟨effect, heffect, hagrees⟩ := hone.back first hfirst
            obtain ⟨other, hother⟩ := hagrees.exists_error_right hfailure
            exact ⟨effect, .stop heffect hother, hagrees⟩
    | @goOn might rest first next hfirst hok hnext ih =>
        cases hsets with
        | cons hone hmore =>
            obtain ⟨effect, heffect, hagrees⟩ := hone.back first hfirst
            obtain rfl := hagrees.eq_of_ok_right hok
            obtain ⟨last, hlast, hmatches⟩ := ih hmore
            exact ⟨_, .goOn heffect hok hlast, hmatches.andThen hok⟩

end Effect

namespace Plan

variable {tree : FileTree} {world : World} {network : Network} {effect : Effect}

def MayShow (plan : Plan) (tree : FileTree) (world : World) (effect : Effect) : Prop :=
  ∃ course, plan.MayTake tree world course ∧ course.effect = effect

-- A way to look at plans that shows one plan after another as their effects in turn.
structure Composes (shows : Plan → Effect → Prop) : Prop where
  done : ∀ effect, shows done effect ↔ effect = .nothing
  fail : ∀ failure effect, shows (fail failure) effect ↔ effect = ⟨[], .error failure⟩
  notes_andThen : ∀ log plan effect, shows ((notes log).andThen plan) effect ↔ shows plan effect
  andThen : ∀ first second effect, shows (first.andThen second) effect ↔
    (∃ failure, effect.result = .error failure ∧ shows first effect) ∨
      ∃ before after, shows first before ∧ before.result = .ok () ∧ shows second after ∧
        effect = before.andThen after

theorem Composes.sequence {shows : Plan → Effect → Prop} (h : Composes shows) (plans : List Plan) :
    shows (sequence plans) effect ↔ Effect.InTurn (plans.map shows) effect := by
  induction plans generalizing effect with
  | nil =>
      refine (h.done effect).trans ⟨fun hnothing => hnothing ▸ .nil, fun hnone => ?_⟩
      cases hnone
      rfl
  | cons plan plans ih =>
      rw [sequence_cons, h.andThen, List.map_cons]
      constructor
      · rintro (⟨failure, hfailure, hfirst⟩ | ⟨before, after, hbefore, hok, hafter, rfl⟩)
        · exact .stop hfirst hfailure
        · exact .goOn hbefore hok (ih.mp hafter)
      · intro hturn
        cases hturn with
        | stop hfirst hfailure => exact .inl ⟨_, hfailure, hfirst⟩
        | goOn hfirst hok hnext => exact .inr ⟨_, _, hfirst, hok, ih.mpr hnext, rfl⟩

theorem sequence_flatMap {α : Type} (items : List α) (parts : α → List Plan) :
    sequence (items.map fun item => sequence (parts item)) = sequence (items.flatMap parts) := by
  induction items with
  | nil => rfl
  | cons item items ih =>
      rw [List.map_cons, sequence_cons, ih, List.flatMap_cons, sequence_append]

theorem composes_mayShow (tree : FileTree) (world : World) :
    Composes fun plan => plan.MayShow tree world where
  done effect := by
    constructor
    · rintro ⟨_, ⟨⟩, rfl⟩
      rfl
    · rintro rfl
      exact ⟨_, .done, rfl⟩
  fail failure effect := by
    constructor
    · rintro ⟨course, hcourse, rfl⟩
      rw [mayTake_fail_iff.mp hcourse]
      rfl
    · rintro rfl
      exact ⟨_, mayTake_fail_iff.mpr rfl, rfl⟩
  notes_andThen log plan effect := by
    constructor
    · rintro ⟨course, hcourse, rfl⟩
      obtain ⟨after, hafter, rfl⟩ := mayTake_notes_andThen.mp hcourse
      exact ⟨after, hafter, rfl⟩
    · rintro ⟨course, hcourse, rfl⟩
      exact ⟨_, mayTake_notes_andThen.mpr ⟨course, hcourse, rfl⟩, rfl⟩
  andThen first second effect := by
    have hafter : ∀ before after : Course, before.result = .ok () →
        (after.after before.waves before.told).effect = before.effect.andThen after.effect := by
      intro before after hok
      have hsame : before.effect.result = .ok () := hok
      rw [Effect.andThen_of_ok hsame]
      rfl
    constructor
    · rintro ⟨course, hcourse, rfl⟩
      rcases mayTake_andThen.mp hcourse with
        ⟨failure, hfailure, hfirst⟩ | ⟨before, after, hbefore, hok, hnext, rfl⟩
      · exact .inl ⟨failure, hfailure, course, hfirst, rfl⟩
      · exact .inr ⟨_, _, ⟨before, hbefore, rfl⟩, hok, ⟨after, hnext, rfl⟩, hafter before after hok⟩
    · rintro (⟨failure, hfailure, course, hfirst, rfl⟩ |
        ⟨_, _, ⟨before, hbefore, rfl⟩, hok, ⟨after, hnext, rfl⟩, rfl⟩)
      · exact ⟨course, mayTake_andThen.mpr (.inl ⟨failure, hfailure, hfirst⟩), rfl⟩
      · refine ⟨_, mayTake_andThen.mpr (.inr ⟨before, after, hbefore, hok, hnext, rfl⟩), ?_⟩
        exact hafter before after hok

theorem effect_runSteps_wave (outcome : Except Failure Unit) (wave : Wave)
    (rest : List PlanStep) :
    (runSteps tree network outcome (.wave wave :: rest)).effect =
      Effect.andThen ⟨[(wave.run tree network).1], (wave.run tree network).2.1⟩
        (runSteps tree network outcome rest).effect := by
  unfold Effect.andThen
  cases hwave : (wave.run tree network).2.1 <;> simp only [runSteps, hwave] <;> rfl

theorem effect_runSteps_append (outcome : Except Failure Unit) (steps more : List PlanStep) :
    (runSteps tree network outcome (steps ++ more)).effect =
      (runSteps tree network (.ok ()) steps).effect.andThen
        (runSteps tree network outcome more).effect := by
  induction steps with
  | nil => rfl
  | cons step steps ih =>
      cases step with
      | note entry => exact ih
      | wave wave =>
          rw [List.cons_append, effect_runSteps_wave, ih, effect_runSteps_wave,
            Effect.andThen_assoc]

theorem result_runSteps_of_error (failure : Failure) (steps : List PlanStep) :
    ∃ other, (runSteps tree network (.error failure) steps).effect.result = .error other := by
  induction steps with
  | nil => exact ⟨failure, rfl⟩
  | cons step steps ih =>
      cases step with
      | note entry => exact ih
      | wave wave =>
          rw [effect_runSteps_wave]
          cases hwave : (wave.run tree network).2.1 with
          | error other => exact ⟨other, rfl⟩
          | ok => exact ih

theorem effect_run_andThen (first second : Plan) :
    ((first.andThen second).run tree network).effect =
      (first.run tree network).effect.andThen (second.run tree network).effect := by
  cases hfirst : first.outcome with
  | ok =>
      simp only [run, andThen, hfirst]
      exact effect_runSteps_append second.outcome first.steps second.steps
  | error failure =>
      obtain ⟨other, hother⟩ : ∃ other, (first.run tree network).effect.result = .error other := by
        rw [run, hfirst]
        exact result_runSteps_of_error failure first.steps
      have hsame : first.andThen second = first := by simp only [andThen, hfirst]
      rw [hsame, Effect.andThen_of_error hother]

theorem composes_run (tree : FileTree) (network : Network) :
    Composes fun plan effect => (plan.run tree network).effect = effect where
  done effect := eq_comm
  fail failure effect := eq_comm
  notes_andThen log plan effect := by
    have hnotes : ((notes log).run tree network).effect = .nothing := by
      induction log with
      | nil => rfl
      | cons entry log ih => exact ih
    rw [effect_run_andThen, hnotes, Effect.nothing_andThen]
  andThen first second effect := by
    rw [effect_run_andThen]
    constructor
    · rintro rfl
      cases hresult : (first.run tree network).effect.result with
      | ok => exact .inr ⟨_, _, rfl, hresult, rfl, rfl⟩
      | error failure =>
          rw [Effect.andThen_of_error hresult]
          exact .inl ⟨failure, hresult, rfl⟩
    · rintro (⟨failure, hfailure, rfl⟩ | ⟨before, after, rfl, hok, rfl, rfl⟩)
      · exact Effect.andThen_of_error hfailure
      · rfl

end Plan

namespace ClusterCommand

variable {command : ClusterCommand} {tree : FileTree} {world : World} {effect : Effect}

def MayShow (command : ClusterCommand) (tree : FileTree) (world : World) (effect : Effect) : Prop :=
  ∃ run, command.MayLeave tree world run ∧ run.effect = effect

theorem mayShow_iff (hcalm : ¬world.mayPanic) :
    command.MayShow tree world effect ↔ (command.plan tree).MayShow tree world effect := by
  constructor
  · rintro ⟨run, hrun, rfl⟩
    obtain ⟨course, hcourse, hwaves, hresult, _⟩ := hrun.takes hcalm
    exact ⟨course, hcourse, by rw [Run.effect, hwaves, hresult]; rfl⟩
  · rintro ⟨course, hcourse, rfl⟩
    obtain ⟨run, hrun, hwaves, hresult⟩ := exists_mayLeave hcourse
    exact ⟨run, hrun, by rw [Run.effect, hwaves, hresult]; rfl⟩

theorem effect_run (command : ClusterCommand) (tree : FileTree) (network : Network) :
    (command.run tree network).effect = ((command.plan tree).run tree network).effect := by
  simp only [run]
  generalize (command.plan tree).run tree network = planned
  obtain ⟨phases, waves, log, result⟩ := planned
  cases result <;> rfl

end ClusterCommand

end IndexFleet
