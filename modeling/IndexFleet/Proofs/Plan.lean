import IndexFleet.ClusterCommand.Plan
import Mathlib.Data.List.Forall2

namespace IndexFleet

-- Two lists that agree in one respect can be gone through side by side.
theorem forall₂_of_map_eq {α β γ : Type} {name : α → γ} {title : β → γ} {made : List α}
    {items : List β} {holds : β → α → Prop} (hmade : made.map name = items.map title)
    (hholds : ∀ item ∈ items, ∀ one ∈ made, name one = title item → holds item one) :
    List.Forall₂ holds items made := by
  induction made generalizing items with
  | nil =>
      rw [List.map_eq_nil_iff.mp hmade.symm]
      exact .nil
  | cons one made ih =>
      obtain ⟨item, rest, rfl, hone, hrest⟩ := List.map_eq_cons_iff.mp hmade.symm
      refine .cons (hholds item List.mem_cons_self one List.mem_cons_self hone.symm) ?_
      apply ih hrest.symm
      intro other hother another hanother
      exact hholds other (List.mem_cons_of_mem _ hother) another (List.mem_cons_of_mem _ hanother)

def PlanStep.commands? : PlanStep → Option (List Command)
  | .note _ => none
  | .wave ⟨_, commands⟩ => some commands

@[simp] theorem PlanStep.commands?_note (entry : Entry) : (note entry).commands? = none := rfl

@[simp] theorem PlanStep.commands?_wave (commands : Wave) :
    (wave commands).commands? = some commands.commands := rfl

-- What the dispatcher tells in a step.
def PlanStep.told : PlanStep → Log
  | .note entry => [entry]
  | .wave ⟨notes, _⟩ => notes

namespace Plan

def waves (plan : Plan) : List (List Command) := plan.steps.filterMap (·.commands?)

@[simp] theorem waves_done : done.waves = [] := rfl

@[simp] theorem waves_fail (failure : Failure) : (fail failure).waves = [] := rfl

@[simp] theorem waves_notes (log : Log) : (notes log).waves = [] := by
  simp [waves, notes]

@[simp] theorem waves_wave (wave : Wave) : (Plan.wave wave).waves = [wave.commands] := rfl

theorem notes_append (log more : Log) : notes (log ++ more) = (notes log).andThen (notes more) := by
  simp only [notes, andThen, List.map_append]

theorem waves_andThen {first : Plan} (hfirst : first.outcome = .ok ()) (second : Plan) :
    (first.andThen second).waves = first.waves ++ second.waves := by
  simp only [andThen, hfirst, waves, List.filterMap_append]

theorem outcome_andThen {first : Plan} (hfirst : first.outcome = .ok ()) (second : Plan) :
    (first.andThen second).outcome = second.outcome := by
  simp only [andThen, hfirst]

-- A plan makes all of some waves and does not fail by itself.
structure Makes (plan : Plan) (waves : List (List Command)) : Prop where
  outcome : plan.outcome = .ok ()
  waves : plan.waves = waves

theorem makes_notes (log : Log) : (notes log).Makes [] := ⟨rfl, waves_notes log⟩

theorem makes_wave (wave : Wave) : (Plan.wave wave).Makes [wave.commands] := ⟨rfl, waves_wave wave⟩

theorem Makes.andThen {first second : Plan} {before after : List (List Command)}
    (hfirst : first.Makes before) (hsecond : second.Makes after) :
    (first.andThen second).Makes (before ++ after) := by
  refine ⟨(outcome_andThen hfirst.outcome second).trans hsecond.outcome, ?_⟩
  rw [waves_andThen hfirst.outcome, hfirst.waves, hsecond.waves]

theorem makes_sequence {α : Type} {items : List α} {make : α → Plan}
    {parts : List (List (List Command))}
    (hmake : List.Forall₂ (fun item part => (make item).Makes part) items parts) :
    (sequence (items.map make)).Makes parts.flatten := by
  induction hmake with
  | nil => exact ⟨rfl, rfl⟩
  | cons hitem _ ih => exact hitem.andThen ih

theorem makes_sequence_map {α : Type} {items : List α} {make : α → Plan}
    {made : α → List (List Command)} (hmake : ∀ item ∈ items, (make item).Makes (made item)) :
    (sequence (items.map make)).Makes (items.flatMap made) := by
  refine makes_sequence (List.forall₂_map_right_iff.mpr (List.forall₂_same.mpr hmake))

theorem attempt_of_ok {α : Type} {found : Except Failure α × Log} {value : α} {next : α → Plan}
    (hfound : found.1 = .ok value) : attempt found next = (notes found.2).andThen (next value) := by
  simp only [attempt, hfound]

theorem attempt_of_error {α : Type} {found : Except Failure α × Log} {failure : Failure}
    {next : α → Plan} (hfound : found.1 = .error failure) :
    attempt found next = (notes found.2).andThen (fail failure) := by
  simp only [attempt, hfound]

theorem makes_attempt {α : Type} {found : Except Failure α × Log} {value : α} {next : α → Plan}
    {waves : List (List Command)} (hfound : found.1 = .ok value)
    (hnext : (next value).Makes waves) : (attempt found next).Makes waves := by
  rw [attempt_of_ok hfound]
  exact (makes_notes found.2).andThen hnext

-- A plan makes some waves and then fails by itself.
structure Stops (plan : Plan) (waves : List (List Command)) (failure : Failure) : Prop where
  outcome : plan.outcome = .error failure
  waves : plan.waves = waves

variable {first : Plan} {before : List (List Command)} {failure : Failure}

theorem stops_fail (failure : Failure) : (fail failure).Stops [] failure := ⟨rfl, rfl⟩

theorem Stops.andThen (hfirst : first.Stops before failure) (second : Plan) :
    (first.andThen second).Stops before failure := by
  simpa only [Plan.andThen, hfirst.outcome] using hfirst

theorem Makes.andThen_stops {second : Plan} {after : List (List Command)}
    (hfirst : first.Makes before) (hsecond : second.Stops after failure) :
    (first.andThen second).Stops (before ++ after) failure := by
  refine ⟨(outcome_andThen hfirst.outcome second).trans hsecond.outcome, ?_⟩
  rw [waves_andThen hfirst.outcome, hfirst.waves, hsecond.waves]

theorem stops_attempt {α : Type} {found : Except Failure α × Log} {next : α → Plan}
    (hfound : found.1 = .error failure) : (attempt found next).Stops [] failure := by
  rw [attempt_of_error hfound]
  exact (makes_notes found.2).andThen_stops (stops_fail failure)

-- A plan makes some waves, and then it fails by itself if there is a failure.
def Ends (plan : Plan) (waves : List (List Command)) : Option Failure → Prop
  | none => plan.Makes waves
  | some failure => plan.Stops waves failure

theorem Ends.waves_eq {plan : Plan} {waves : List (List Command)} {failure : Option Failure}
    (hends : plan.Ends waves failure) : plan.waves = waves := by
  cases failure with
  | none => exact Makes.waves hends
  | some failure => exact Stops.waves hends

theorem Ends.outcome_eq {plan : Plan} {waves : List (List Command)} {failure : Option Failure}
    (hends : plan.Ends waves failure) : plan.outcome = failure.elim (.ok ()) .error := by
  cases failure with
  | none => exact Makes.outcome hends
  | some failure => exact Stops.outcome hends

theorem Makes.andThen_ends {second : Plan} {after : List (List Command)}
    {failure : Option Failure} (hfirst : first.Makes before) (hsecond : second.Ends after failure) :
    (first.andThen second).Ends (before ++ after) failure := by
  cases failure with
  | none => exact hfirst.andThen hsecond
  | some failure => exact hfirst.andThen_stops hsecond

theorem ends_attempt {α : Type} {found : Except Failure α × Log} {value : α} {next : α → Plan}
    {waves : List (List Command)} {failure : Option Failure} (hfound : found.1 = .ok value)
    (hnext : (next value).Ends waves failure) : (attempt found next).Ends waves failure := by
  rw [attempt_of_ok hfound]
  exact (makes_notes found.2).andThen_ends hnext

def Every (holds : List Command → Prop) (plan : Plan) : Prop :=
  ∀ commands ∈ plan.waves, holds commands

variable {holds : List Command → Prop}

theorem every_of_waves_eq_nil {plan : Plan} (hplan : plan.waves = []) : plan.Every holds := by
  simp [Every, hplan]

theorem every_notes (log : Log) : (notes log).Every holds :=
  every_of_waves_eq_nil (waves_notes log)

-- A plan that fails takes the waves of its successor away, which does no harm here.
theorem Every.andThen {first second : Plan} (hfirst : first.Every holds)
    (hsecond : second.Every holds) : (first.andThen second).Every holds := by
  cases houtcome : first.outcome with
  | ok =>
      intro commands hcommands
      rw [waves_andThen houtcome, List.mem_append] at hcommands
      exact hcommands.elim (hfirst commands) (hsecond commands)
  | error failure => simpa only [Plan.andThen, houtcome] using hfirst

theorem every_sequence {plans : List Plan} (hplans : ∀ plan ∈ plans, plan.Every holds) :
    (sequence plans).Every holds := by
  induction plans with
  | nil => exact every_of_waves_eq_nil waves_done
  | cons plan plans ih =>
      obtain ⟨hplan, hrest⟩ := List.forall_mem_cons.mp hplans
      exact hplan.andThen (ih hrest)

theorem every_attempt {α : Type} {found : Except Failure α × Log} {next : α → Plan}
    (hnext : ∀ value, found.1 = .ok value → (next value).Every holds) :
    (attempt found next).Every holds := by
  refine (every_notes found.2).andThen ?_
  cases hfound : found.1 with
  | ok value => exact hnext value hfound
  | error failure => exact every_of_waves_eq_nil (waves_fail failure)

def told (plan : Plan) : Log := plan.steps.flatMap (·.told)

-- What is told along a plan is all of a kind.
def Tells (allowed : Entry → Prop) (plan : Plan) : Prop := ∀ entry ∈ plan.told, allowed entry

variable {allowed : Entry → Prop}

theorem tells_notes {log : Log} (hlog : ∀ entry ∈ log, allowed entry) :
    (notes log).Tells allowed := by
  intro entry hentry
  obtain ⟨step, hstep, hmem⟩ := List.mem_flatMap.mp hentry
  obtain ⟨noted, hnoted, rfl⟩ := List.mem_map.mp hstep
  exact List.mem_singleton.mp hmem ▸ hlog noted hnoted

theorem tells_wave {log : Log} {commands : List Command} (hlog : ∀ entry ∈ log, allowed entry) :
    (wave ⟨log, commands⟩).Tells allowed := by
  intro entry hentry
  obtain ⟨step, hstep, hmem⟩ := List.mem_flatMap.mp hentry
  obtain rfl := List.mem_singleton.mp hstep
  exact hlog entry hmem

theorem Tells.andThen {first second : Plan} (hfirst : first.Tells allowed)
    (hsecond : second.Tells allowed) : (first.andThen second).Tells allowed := by
  cases houtcome : first.outcome with
  | ok =>
      intro entry hentry
      simp only [Plan.andThen, houtcome, told, List.flatMap_append, List.mem_append] at hentry
      exact hentry.elim (hfirst entry) (hsecond entry)
  | error failure => simpa only [Plan.andThen, houtcome] using hfirst

theorem tells_sequence {plans : List Plan} (hplans : ∀ plan ∈ plans, plan.Tells allowed) :
    (sequence plans).Tells allowed := by
  induction plans with
  | nil => exact List.forall_mem_nil _
  | cons plan plans ih =>
      obtain ⟨hplan, hrest⟩ := List.forall_mem_cons.mp hplans
      exact hplan.andThen (ih hrest)

theorem tells_attempt {α : Type} {found : Except Failure α × Log} {value : α} {next : α → Plan}
    (hfound : found.1 = .ok value) (hlog : ∀ entry ∈ found.2, allowed entry)
    (hnext : (next value).Tells allowed) : (attempt found next).Tells allowed := by
  rw [attempt_of_ok hfound]
  exact (tells_notes hlog).andThen hnext

end Plan

theorem givenArgument_of_ne_empty {argument : String} (hargument : argument ≠ "") :
    givenArgument (some argument) = some argument := by
  simp [givenArgument, Option.filter, hargument]

theorem Command.kindOfName_name (kind : CommandKind) : kindOfName kind.name = .ok kind := by
  cases kind <;> rfl

namespace ClusterCommand

def commandAt (command : ClusterCommand) (node : Node) (kind : CommandKind)
    (argument : Option String) : Command :=
  ⟨kind, argument, { Client.toServer node.host node.port command.settings.timeouts with
    readTimeout := kind.readTimeout command.settings.timeouts }⟩

-- Nothing but a missing argument keeps a command from being made.
theorem commandFor_eq (command : ClusterCommand) (node : Node) (kind : CommandKind)
    (argument : Option String) :
    command.commandFor node kind argument =
      if kind.needsArgument && (givenArgument argument).isNone then
        .error (Command.missingArgument kind)
      else .ok (command.commandAt node kind (givenArgument argument)) := by
  simp only [commandFor, Command.create, Command.kindOfName_name, Command.checkArgument, commandAt,
    bind, Except.bind]
  cases hmissing : kind.needsArgument && (givenArgument argument).isNone <;> rfl

theorem commandFor_of_ne_empty (command : ClusterCommand) (node : Node) (kind : CommandKind)
    {argument : String} (hargument : argument ≠ "") :
    command.commandFor node kind (some argument) =
      .ok (command.commandAt node kind (some argument)) := by
  rw [commandFor_eq, givenArgument_of_ne_empty hargument, Option.isNone_some, Bool.and_false]
  rfl

theorem createAll_map {α : Type} {items : List α} {make : α → Except Failure Command}
    {made : α → Command} (hmake : ∀ item ∈ items, make item = .ok (made item)) :
    createAll (items.map make) = (items.map made, .ok ()) := by
  induction items with
  | nil => rfl
  | cons item items ih =>
      obtain ⟨hitem, hrest⟩ := List.forall_mem_cons.mp hmake
      simp only [List.map_cons, hitem, createAll, ih hrest]

end ClusterCommand

end IndexFleet
