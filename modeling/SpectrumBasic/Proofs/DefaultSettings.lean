import Mathlib.Data.List.Induction
import SpectrumBasic.Session

/-!
# Which settings are in force in a session

The defaults are remembered from their first use on, and that may be any use. What is remembered can be
said without following the session (`InForce`): the settings of the latest replacement, or, if that
forgot the defaults or there was none, what the environment asked for when they were used for the first
time since then. That environment is told by the writes so far (`valueAfter`).

A step replaces the defaults, or uses and so fills them in, or leaves them alone (`Step.kinds`). From this
follows, step after step, that a run remembers what is in force (`InForce.settings_run`) and nothing else
(`inForce_of_settings_run`).
-/

namespace SpectrumBasic

/-! ## Variables -/

namespace Environment

/-- A variable that is unset has no value, and the others keep theirs. -/
theorem lookup_unset (env : Environment) (name other : String) :
    (env.unset name).lookup other = if other = name then none else env.lookup other := by
  induction env with
  | nil => simp [unset]
  | cons entry rest ih =>
    obtain ⟨key, value⟩ := entry
    rw [unset] at ih ⊢
    by_cases hkey : key = name
    · subst hkey
      rw [List.filter_cons_of_neg (by simp), ih]
      by_cases hother : other = key
      · rw [if_pos hother, if_pos hother]
      · rw [if_neg hother, if_neg hother, List.lookup_cons, beq_false_of_ne hother]
    · rw [List.filter_cons_of_pos (by simpa using hkey)]
      by_cases hother : other = key
      · subst hother
        rw [List.lookup_cons_self, List.lookup_cons_self, if_neg hkey]
      · rw [List.lookup_cons, List.lookup_cons, beq_false_of_ne hother]
        exact ih

theorem lookup_set (env : Environment) (name value other : String) :
    (env.set name value).lookup other = if other = name then some value else env.lookup other := by
  by_cases hother : other = name
  · subst hother
    rw [set, List.lookup_cons_self, if_pos rfl]
  · rw [set, List.lookup_cons, beq_false_of_ne hother, lookup_unset, if_neg hother, if_neg hother]

end Environment

/-- Settings are read from the values of their own variables and from nothing else. -/
theorem Settings.ofEnvironment_congr {env env' : Environment}
    (h : ∀ name ∈ variableNames, env.lookup name = env'.lookup name) :
    ofEnvironment env = ofEnvironment env' := by
  have hvalue : ∀ name ∈ variableNames, env.value? name = env'.value? name := by
    intro name hname
    rw [Environment.value?, Environment.value?, h name hname]
  simp only [variableNames, List.forall_mem_cons] at hvalue
  obtain ⟨hfirst, hstep, hnumbers, hdirectives, hheader, hencoding, -⟩ := hvalue
  simp only [ofEnvironment, hfirst, hstep, hnumbers, hdirectives, hheader, hencoding]

namespace Defaults

/-! ## What was done so far -/

/-- Whether a step replaces the defaults, or forgets them. -/
def Step.replaces : Step → Bool
  | .replace _ => true
  | _ => false

/-- Whether a step uses the defaults. -/
def Step.uses : Step → Bool
  | .use _ => true
  | _ => false

/-- A step replaces the defaults, or uses them, or does neither. -/
theorem Step.kinds (step : Step) :
    (∃ settings, step = .replace settings) ∨ (∃ purpose, step = .use purpose) ∨
      (step.replaces = false ∧ step.uses = false) := by
  cases step with
  | replace settings => exact .inl ⟨settings, rfl⟩
  | use purpose => exact .inr (.inl ⟨purpose, rfl⟩)
  | setVariable name value => exact .inr (.inr ⟨rfl, rfl⟩)
  | unsetVariable name => exact .inr (.inr ⟨rfl, rfl⟩)
  | readEnvironment => exact .inr (.inr ⟨rfl, rfl⟩)

/-- What a step writes into a variable: a value, or none if it unsets it. -/
def Step.write? (name : String) : Step → Option (Option String)
  | .setVariable other value => if name = other then some (some value) else none
  | .unsetVariable other => if name = other then some none else none
  | _ => none

/-- The value of a variable after some steps: what was written last, or what it was at the start. -/
def valueAfter (env : Environment) (steps : List Step) (name : String) : Option String :=
  (steps.filterMap (Step.write? name)).getLast?.getD (env.lookup name)

/-- The steps up to a replacement that forgot the defaults, or none at all, and steps behind them that
neither replaced nor used the defaults. -/
structure Waits (before waiting : List Step) : Prop where
  forgotten : before = [] ∨ ∃ earlier, before = earlier ++ [.replace none]
  unused : ∀ step ∈ waiting, step.replaces = false ∧ step.uses = false

/-- The settings that are in force after some steps of a session that started with the environment
`env`. -/
inductive InForce (env : Environment) : List Step → Settings → Prop where
  /-- The latest replacement said which. -/
  | replaced (before since : List Step) (settings : Settings)
      (hsince : ∀ step ∈ since, step.replaces = false) :
      InForce env (before ++ .replace (some settings) :: since) settings
  /-- The latest replacement forgot them, or there was none. Then they were read from the environment as
  it was `now`, at the first use since. -/
  | read (before waiting since : List Step) (purpose : Use) (now : Environment)
      (hwaits : Waits before waiting)
      (hsince : ∀ step ∈ since, step.replaces = false)
      (hnow : ∀ name ∈ Settings.variableNames,
        now.lookup name = valueAfter env (before ++ waiting) name) :
      InForce env (before ++ waiting ++ .use purpose :: since) (.ofEnvironment now)

/-- A step that replaces nothing leaves the settings in force. -/
theorem InForce.concat {env : Environment} {steps : List Step} {settings : Settings}
    (h : InForce env steps settings) {step : Step} (hstep : step.replaces = false) :
    InForce env (steps ++ [step]) settings := by
  have hlast : ∀ since : List Step, (∀ s ∈ since, s.replaces = false) →
      ∀ s ∈ since ++ [step], s.replaces = false := fun since hsince =>
    List.forall_mem_append.mpr ⟨hsince, List.forall_mem_singleton.mpr hstep⟩
  cases h with
  | replaced before since _ hsince =>
    rw [List.append_assoc]
    exact .replaced before (since ++ [step]) settings (hlast since hsince)
  | read before waiting since purpose now hwaits hsince hnow =>
    rw [List.append_assoc]
    exact .read before waiting (since ++ [step]) purpose now hwaits (hlast since hsince) hnow

/-- A wait goes on with a step that neither replaces nor uses the defaults. -/
theorem Waits.concat {before waiting : List Step} (h : Waits before waiting) {step : Step}
    (hstep : step.replaces = false ∧ step.uses = false) : Waits before (waiting ++ [step]) :=
  ⟨h.forgotten, List.forall_mem_append.mpr ⟨h.unused, List.forall_mem_singleton.mpr hstep⟩⟩

/-! ## One step -/

/-- A step that neither replaces nor uses the defaults leaves them alone. -/
theorem settings_step_of_waiting (d : Defaults) {step : Step}
    (hstep : step.replaces = false ∧ step.uses = false) :
    (d.step step).2.settings = d.settings := by
  cases step with
  | replace _ => cases hstep.1
  | use _ => cases hstep.2
  | setVariable _ _ => rfl
  | unsetVariable _ => rfl
  | readEnvironment => rfl

theorem settings_step_use (d : Defaults) (purpose : Use) :
    (d.step (.use purpose)).2.settings = some d.current := rfl

theorem settings_step_of_known {d : Defaults} {settings : Settings} (hd : d.settings = some settings)
    {step : Step} (hstep : step.replaces = false) : (d.step step).2.settings = some settings := by
  rcases step.kinds with ⟨replacement, rfl⟩ | ⟨purpose, rfl⟩ | hwaiting
  · cases hstep
  · rw [settings_step_use, current, hd, Option.getD_some]
  · rw [settings_step_of_waiting d hwaiting, hd]

/-- What a step makes of a variable: what it writes there. -/
theorem lookup_environment_step (d : Defaults) (step : Step) (name : String) :
    (d.step step).2.environment.lookup name =
      (step.write? name).getD (d.environment.lookup name) := by
  cases step with
  | setVariable other value =>
    show (d.environment.set other value).lookup name = _
    rw [Environment.lookup_set, Step.write?]
    split <;> rfl
  | unsetVariable other =>
    show (d.environment.unset other).lookup name = _
    rw [Environment.lookup_unset, Step.write?]
    split <;> rfl
  | readEnvironment => rfl
  | replace _ => rfl
  | use _ => rfl

/-! ## Whole runs -/

/-- A run goes on from where its first part has led. -/
theorem run_append (d : Defaults) (steps later : List Step) :
    d.run (steps ++ later) =
      ((d.run steps).1 ++ ((d.run steps).2.run later).1, ((d.run steps).2.run later).2) := by
  induction steps generalizing d with
  | nil => rfl
  | cons step rest ih => simp only [List.cons_append, run, ih]

theorem run_concat (d : Defaults) (steps : List Step) (step : Step) :
    (d.run (steps ++ [step])).2 = ((d.run steps).2.step step).2 := by
  rw [run_append]
  rfl

theorem length_run (d : Defaults) (steps : List Step) :
    (d.run steps).1.length = steps.length := by
  induction steps generalizing d with
  | nil => rfl
  | cons step rest ih => simp only [run, List.length_cons, ih]

/-- After a run a variable has the value that was written last. -/
theorem lookup_environment_run (env : Environment) (steps : List Step) (name : String) :
    (run { environment := env } steps).2.environment.lookup name = valueAfter env steps name := by
  induction steps using List.reverseRecOn with
  | nil => rfl
  | append_singleton steps step ih =>
    rw [run_concat, lookup_environment_step, ih, valueAfter, valueAfter, List.filterMap_append,
      List.getLast?_append]
    cases hwrite : step.write? name with
    | none => simp [hwrite]
    | some value => simp [hwrite]

/-- Settings that are known stay as they are until they are replaced. -/
theorem settings_run_of_known {d : Defaults} {settings : Settings} (hd : d.settings = some settings)
    {steps : List Step} (hsteps : ∀ step ∈ steps, step.replaces = false) :
    (d.run steps).2.settings = some settings := by
  induction steps generalizing d with
  | nil => exact hd
  | cons step rest ih =>
    rw [List.forall_mem_cons] at hsteps
    exact ih (settings_step_of_known hd hsteps.1) hsteps.2

/-- Without a replacement or a use the defaults stay as they are. -/
theorem settings_run_of_waiting (d : Defaults) {steps : List Step}
    (hsteps : ∀ step ∈ steps, step.replaces = false ∧ step.uses = false) :
    (d.run steps).2.settings = d.settings := by
  induction steps generalizing d with
  | nil => rfl
  | cons step rest ih =>
    rw [List.forall_mem_cons] at hsteps
    exact (ih (d.step step).2 hsteps.2).trans (settings_step_of_waiting d hsteps.1)

/-- Defaults that are waited for are not known. -/
theorem Waits.settings_run {before waiting : List Step} (h : Waits before waiting)
    (env : Environment) : (run { environment := env } (before ++ waiting)).2.settings = none := by
  rw [run_append]
  refine (settings_run_of_waiting _ h.unused).trans ?_
  rcases h.forgotten with rfl | ⟨earlier, rfl⟩
  · rfl
  · rw [run_concat]
    rfl

/-- Defaults that are not known are waited for. -/
theorem exists_waits_of_settings_eq_none {env : Environment} {steps : List Step}
    (h : (run { environment := env } steps).2.settings = none) :
    ∃ before waiting, steps = before ++ waiting ∧ Waits before waiting := by
  induction steps using List.reverseRecOn with
  | nil => exact ⟨[], [], rfl, .inl rfl, List.forall_mem_nil _⟩
  | append_singleton steps step ih =>
    rw [run_concat] at h
    rcases step.kinds with ⟨replacement, rfl⟩ | ⟨purpose, rfl⟩ | hstep
    · cases h
      exact ⟨steps ++ [.replace none], [], (List.append_nil _).symm, .inr ⟨steps, rfl⟩,
        List.forall_mem_nil _⟩
    · cases h
    · rw [settings_step_of_waiting _ hstep] at h
      obtain ⟨before, waiting, rfl, hwaits⟩ := ih h
      exact ⟨before, waiting ++ [step], List.append_assoc .., hwaits.concat hstep⟩

/-- What is in force is remembered by a run. -/
theorem InForce.settings_run {env : Environment} {steps : List Step} {settings : Settings}
    (h : InForce env steps settings) :
    (run { environment := env } steps).2.settings = some settings := by
  cases h with
  | replaced before since _ hsince =>
    rw [run_append, run]
    exact settings_run_of_known rfl hsince
  | read before waiting since purpose now hwaits hsince hnow =>
    rw [run_append, run]
    refine settings_run_of_known ((settings_step_use _ purpose).trans ?_) hsince
    -- the use that ends the wait finds nothing remembered, and reads the variables as they are
    rw [current, hwaits.settings_run env, Option.getD_none]
    congr 1
    apply Settings.ofEnvironment_congr
    intro name hname
    rw [lookup_environment_run, hnow name hname]

/-- What is remembered by a run is in force. -/
theorem inForce_of_settings_run {env : Environment} {steps : List Step} {settings : Settings}
    (h : (run { environment := env } steps).2.settings = some settings) :
    InForce env steps settings := by
  induction steps using List.reverseRecOn generalizing settings with
  | nil => cases h
  | append_singleton steps step ih =>
    rw [run_concat] at h
    rcases step.kinds with ⟨replacement, rfl⟩ | ⟨purpose, rfl⟩ | hstep
    · cases h
      exact .replaced steps [] settings (List.forall_mem_nil _)
    · rw [settings_step_use, current] at h
      cases hknown : (run { environment := env } steps).2.settings with
      | some known =>
        rw [hknown] at h
        cases h
        exact (ih hknown).concat rfl
      | none =>
        rw [hknown] at h
        cases h
        -- this is the use that the defaults were waiting for
        obtain ⟨before, waiting, rfl, hwaits⟩ := exists_waits_of_settings_eq_none hknown
        exact .read before waiting [] purpose _ hwaits (List.forall_mem_nil _)
          fun name _ => lookup_environment_run env _ name
    · rw [settings_step_of_waiting _ hstep] at h
      exact (ih h).concat hstep.1

end Defaults

/-- **Default settings in a session.** Whatever was done before a use of the default settings, and
whatever is done after it, the use is answered with the settings that are in force then, and these are
the only ones: the settings of the latest replacement, or, if that forgot the defaults or there was none,
those that the environment asked for at the first use since. Later changes of the environment do not
matter. -/
theorem default_settings_in_force (env : Environment) (earlier later : List Defaults.Step)
    (purpose : Defaults.Use) :
    ∃ settings,
      (∀ other, Defaults.InForce env (earlier ++ [.use purpose]) other ↔ other = settings) ∧
        (Defaults.run { environment := env } (earlier ++ .use purpose :: later)).1[earlier.length]? =
          some (purpose.answer settings) := by
  let d := (Defaults.run { environment := env } earlier).2
  refine ⟨d.current, fun other => ?_, ?_⟩
  · have hused : (Defaults.run { environment := env } (earlier ++ [.use purpose])).2.settings =
        some d.current := by
      rw [Defaults.run_concat, Defaults.settings_step_use]
    constructor
    · intro h
      exact Option.some.inj (h.settings_run.symm.trans hused)
    · rintro rfl
      exact Defaults.inForce_of_settings_run hused
  · rw [Defaults.run_append, ← Defaults.length_run { environment := env } earlier,
      List.getElem?_append_right (Nat.le_refl _), Nat.sub_self]
    rfl

/-- An encoding fills the defaults in, so that a variable counts only after they were forgotten. -/
example : (Defaults.run {} [.use (.file []), .setVariable "ZXBASIC_FIRST_LINE" "500", .use .look,
      .replace none, .use .look]).1.tail =
    [.done, .settings {}, .done, .settings { firstLine := 500 }] := by
  rfl

end SpectrumBasic
