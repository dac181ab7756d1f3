import IndexFleet.Proofs.Execution.Sequential

namespace IndexFleet

variable {tree : FileTree} {world : World}

-- What may become of the commands of a wave, all of which run to their end.
structure Wave.MayLeave (wave : Wave) (tree : FileTree) (world : World) (runs : WaveRun) :
    Prop where
  commands : runs.commands = wave.commands
  complete : ∀ one ∈ runs, Dialogue.MayLeave world (one.command.dialogue tree) one.transcript

-- Where replies depend on the calls alone, a wave comes to one thing only.
theorem Wave.MayLeave.runs_eq {wave : Wave} {network : Network} {runs : WaveRun}
    (h : wave.MayLeave tree (.replying network) runs) : runs = wave.runs tree network := by
  have hruns : ∀ one ∈ runs, CommandRun.of tree network one.command = one := by
    intro one hone
    rw [CommandRun.of, ← Dialogue.mayLeave_replying (h.complete one hone)]
  rw [Wave.runs, ← h.commands, WaveRun.commands, List.map_map]
  conv_lhs => rw [← List.map_id runs]
  exact List.map_congr_left fun one hone => (hruns one hone).symm

-- What a run comes to: what became of its waves, what the dispatcher itself told, and the result.
structure Course where
  waves : List WaveRun
  told : Log
  result : Except Failure Unit

namespace Course

def after (course : Course) (waves : List WaveRun) (told : Log) : Course :=
  ⟨waves ++ course.waves, told ++ course.told, course.result⟩

@[simp] theorem after_nil (course : Course) : course.after [] [] = course := rfl

theorem after_after (course : Course) (waves earlier : List WaveRun) (told before : Log) :
    (course.after waves told).after earlier before =
      course.after (earlier ++ waves) (before ++ told) := by
  simp only [after, List.append_assoc]

-- The courses along the steps of a plan: up to the first wave with a failing task, or up to the
-- end. It takes no account of the order in which the tasks of a wave take their turns.
inductive Along (tree : FileTree) (world : World) (outcome : Except Failure Unit) :
    List PlanStep → Course → Prop
  | done : Along tree world outcome [] ⟨[], [], outcome⟩
  | note {entry : Entry} {rest : List PlanStep} {course : Course}
      (hrest : Along tree world outcome rest course) :
      Along tree world outcome (.note entry :: rest) (course.after [] [entry])
  | goOn {wave : Wave} {runs : WaveRun} {rest : List PlanStep} {course : Course}
      (hruns : wave.MayLeave tree world runs) (hclean : runs.failures = [])
      (hrest : Along tree world outcome rest course) :
      Along tree world outcome (.wave wave :: rest) (course.after [runs] wave.notes)
  | giveUp {wave : Wave} {runs : WaveRun} {rest : List PlanStep} {failure : Failure}
      (hruns : wave.MayLeave tree world runs) (hfailure : failure ∈ runs.failures) :
      Along tree world outcome (.wave wave :: rest) ⟨[runs], wave.notes, .error failure⟩

variable {course : Course} {outcome : Except Failure Unit} {steps more : List PlanStep}

theorem Along.append_of_error {failure : Failure} (h : Along tree world (.ok ()) steps course)
    (hfailure : course.result = .error failure) :
    Along tree world outcome (steps ++ more) course := by
  induction h with
  | done => exact nomatch hfailure
  | note _ ih => exact .note (ih hfailure)
  | goOn hruns hclean _ ih => exact .goOn hruns hclean (ih hfailure)
  | giveUp hruns hmem => exact .giveUp hruns hmem

theorem Along.append {next : Course} (h : Along tree world (.ok ()) steps course)
    (hok : course.result = .ok ()) (hnext : Along tree world outcome more next) :
    Along tree world outcome (steps ++ more) (next.after course.waves course.told) := by
  induction h with
  | done => exact hnext
  | @note entry _ course _ ih =>
      have hrest := @Along.note _ _ _ entry _ _ (ih hok)
      rwa [after_after] at hrest
  | goOn hruns hclean _ ih =>
      have hrest := Along.goOn hruns hclean (ih hok)
      rwa [after_after] at hrest
  | giveUp => exact nomatch hok

theorem Along.outcome_eq_ok (h : Along tree world outcome steps course)
    (hok : course.result = .ok ()) : outcome = .ok () := by
  induction h with
  | done => exact hok
  | note _ ih => exact ih hok
  | goOn _ _ _ ih => exact ih hok
  | giveUp => exact nomatch hok

-- The waves of a course are waves of its steps, all of them run to their end.
theorem Along.planned (h : Along tree world outcome steps course) :
    ∀ wave ∈ course.waves, wave.commands ∈ steps.filterMap (·.commands?) ∧
      ∀ one ∈ wave, Dialogue.MayLeave world (one.command.dialogue tree) one.transcript := by
  induction h with
  | done => exact fun _ hwave => nomatch hwave
  | note _ ih => exact ih
  | @goOn wave runs _ _ hruns _ _ ih =>
      rw [List.filterMap_cons_some (PlanStep.commands?_wave wave)]
      refine List.forall_mem_cons.mpr ⟨⟨?_, hruns.complete⟩, fun other hother => ?_⟩
      · exact hruns.commands ▸ List.mem_cons_self
      · exact ⟨List.mem_cons_of_mem _ (ih other hother).1, (ih other hother).2⟩
  | @giveUp wave runs _ _ hruns _ =>
      rw [List.filterMap_cons_some (PlanStep.commands?_wave wave)]
      refine List.forall_mem_singleton.mpr ⟨?_, hruns.complete⟩
      exact hruns.commands ▸ List.mem_cons_self

theorem Along.clean_of_ok (h : Along tree world outcome steps course)
    (hok : course.result = .ok ()) : ∀ wave ∈ course.waves, wave.failures = [] := by
  induction h with
  | done => exact fun _ hwave => nomatch hwave
  | note _ ih => exact ih hok
  | goOn _ hclean _ ih => exact List.forall_mem_cons.mpr ⟨hclean, ih hok⟩
  | giveUp => exact nomatch hok

-- A course along steps ends among the first of them, or goes on along the others.
theorem Along.split (h : Along tree world outcome (steps ++ more) course) :
    (∃ failure, course.result = .error failure ∧ Along tree world (.ok ()) steps course) ∨
      ∃ first next, Along tree world (.ok ()) steps first ∧ first.result = .ok () ∧
        Along tree world outcome more next ∧ course = next.after first.waves first.told := by
  induction steps generalizing course with
  | nil => exact .inr ⟨⟨[], [], .ok ()⟩, course, .done, rfl, h, rfl⟩
  | cons step steps ih =>
      cases h with
      | note hrest =>
          rcases ih hrest with ⟨failure, hfailure, hfirst⟩ | ⟨first, next, hfirst, hok, hnext, rfl⟩
          · exact .inl ⟨failure, hfailure, .note hfirst⟩
          · exact .inr ⟨_, next, .note hfirst, hok, hnext, after_after _ _ _ _ _⟩
      | goOn hruns hclean hrest =>
          rcases ih hrest with ⟨failure, hfailure, hfirst⟩ | ⟨first, next, hfirst, hok, hnext, rfl⟩
          · exact .inl ⟨failure, hfailure, .goOn hruns hclean hfirst⟩
          · exact .inr ⟨_, next, .goOn hruns hclean hfirst, hok, hnext, after_after _ _ _ _ _⟩
      | giveUp hruns hfailure => exact .inl ⟨_, rfl, .giveUp hruns hfailure⟩

end Course

namespace Plan

def MayTake (plan : Plan) (tree : FileTree) (world : World) (course : Course) : Prop :=
  Course.Along tree world plan.outcome plan.steps course

variable {plan : Plan} {course : Course}

theorem MayTake.outcome_eq_ok (h : plan.MayTake tree world course) (hok : course.result = .ok ()) :
    plan.outcome = .ok () :=
  Course.Along.outcome_eq_ok h hok

-- A course of two plans one after the other ends with a failure of the first one, or goes on with
-- a course of the second one.
theorem mayTake_andThen {first second : Plan} :
    (first.andThen second).MayTake tree world course ↔
      (∃ failure, course.result = .error failure ∧ first.MayTake tree world course) ∨
        ∃ before after, first.MayTake tree world before ∧ before.result = .ok () ∧
          second.MayTake tree world after ∧ course = after.after before.waves before.told := by
  cases hfirst : first.outcome with
  | ok =>
      simp only [MayTake, andThen, hfirst]
      constructor
      · exact Course.Along.split
      · rintro (⟨failure, hfailure, h⟩ | ⟨before, after, hbefore, hok, hafter, rfl⟩)
        · exact h.append_of_error hfailure
        · exact hbefore.append hok hafter
  | error failure =>
      have hsame : first.andThen second = first := by simp only [andThen, hfirst]
      have hfails : ∀ course, first.MayTake tree world course → course.result ≠ .ok () :=
        fun course h hok => by cases hfirst.symm.trans (h.outcome_eq_ok hok)
      rw [hsame]
      constructor
      · intro h
        cases hresult : course.result with
        | ok => exact absurd hresult (hfails course h)
        | error failure => exact .inl ⟨failure, rfl, h⟩
      · rintro (⟨_, _, h⟩ | ⟨before, _, hbefore, hok, _, _⟩)
        · exact h
        · exact absurd hok (hfails before hbefore)

theorem mayTake_notes_iff {log : Log} :
    (notes log).MayTake tree world course ↔ course = ⟨[], log, .ok ()⟩ := by
  unfold MayTake notes
  induction log generalizing course with
  | nil =>
      constructor
      · rintro ⟨⟩
        rfl
      · rintro rfl
        exact .done
  | cons entry log ih =>
      constructor
      · intro h
        cases h with
        | note hrest =>
            rw [ih.mp hrest]
            rfl
      · rintro rfl
        exact .note (ih.mpr rfl)

theorem mayTake_fail_iff {failure : Failure} :
    (fail failure).MayTake tree world course ↔ course = ⟨[], [], .error failure⟩ := by
  constructor
  · rintro ⟨⟩
    rfl
  · rintro rfl
    exact .done

theorem mayTake_wave_iff {wave : Wave} :
    (Plan.wave wave).MayTake tree world course ↔
      ∃ runs, wave.MayLeave tree world runs ∧
        ((runs.failures = [] ∧ course = ⟨[runs], wave.notes, .ok ()⟩) ∨
          ∃ failure ∈ runs.failures, course = ⟨[runs], wave.notes, .error failure⟩) := by
  constructor
  · intro h
    cases h with
    | @goOn _ runs _ _ hruns hclean hrest =>
        cases hrest with
        | done =>
            refine ⟨runs, hruns, .inl ⟨hclean, ?_⟩⟩
            simp only [Course.after, List.append_nil, Plan.wave]
    | @giveUp _ runs _ failure hruns hfailure =>
        exact ⟨runs, hruns, .inr ⟨failure, hfailure, rfl⟩⟩
  · rintro ⟨runs, hruns, ⟨hclean, rfl⟩ | ⟨failure, hfailure, rfl⟩⟩
    · have hend : Course.Along tree world (.ok ()) [] ⟨[], [], .ok ()⟩ := .done
      have hall := Course.Along.goOn hruns hclean hend
      rw [Course.after, List.append_nil, List.append_nil] at hall
      exact hall
    · exact .giveUp hruns hfailure

-- What is told before a plan goes before what is told in its courses.
theorem mayTake_notes_andThen {log : Log} {plan : Plan} :
    ((notes log).andThen plan).MayTake tree world course ↔
      ∃ after, plan.MayTake tree world after ∧ course = after.after [] log := by
  rw [mayTake_andThen]
  simp only [mayTake_notes_iff]
  constructor
  · rintro (⟨failure, hfailure, rfl⟩ | ⟨before, after, rfl, _, hafter, hcourse⟩)
    · exact nomatch hfailure
    · exact ⟨after, hafter, hcourse⟩
  · rintro ⟨after, hafter, hcourse⟩
    exact .inr ⟨⟨[], log, .ok ()⟩, after, rfl, rfl, hafter, hcourse⟩

end Plan

end IndexFleet
