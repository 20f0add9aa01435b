import SpectrumBasic.Command.Script

/-!
# Runs of scripts

A script takes its steps one after another, so a run of several steps is opened step by step
(`Script.bind_of_ok`, `Script.bind_of_error`). Of the steps only those that change files leave other
files. Printing goes through exactly if the console accepts the lines (`Console.accepts`), and a run
that ends with a failure has another exit status than zero (`Scene.status_transcript_of_error`).
-/

namespace SpectrumBasic

/-! ## Consoles -/

namespace Console

variable {console : Console} {p : Char → Prop}

/-- Lines are accepted by a console that takes all their characters. -/
theorem accepts_of_takes (h : console.Takes p) {lines : List String}
    (hlines : ∀ line ∈ lines, ∀ c ∈ line.toList, p c) (printed : List String) :
    console.accepts printed lines = true := by
  induction lines generalizing printed with
  | nil => rfl
  | cons line rest ih =>
    rw [List.forall_mem_cons] at hlines
    rw [accepts, h printed line hlines.1, Option.isNone_none, Bool.true_and]
    exact ih hlines.2 _

theorem takes_unrestricted (p : Char → Prop) : unrestricted.Takes p := fun _ _ _ => rfl

theorem accepts_unrestricted (printed lines : List String) :
    unrestricted.accepts printed lines = true :=
  accepts_of_takes (takes_unrestricted fun _ => True) (fun _ _ _ _ => trivial) printed

theorem Takes.mono {q : Char → Prop} (h : console.Takes q) (hpq : ∀ c, p c → q c) :
    console.Takes p :=
  fun printed line hline => h printed line fun c hc => hpq c (hline c hc)

end Console

/-! ## Steps -/

namespace Script

variable {α β : Type} {host : Host} {scene after : Scene}

theorem bind_of_ok {first : Script α} {second : α → Script β} {a : α}
    (h : first host scene = (.ok a, after)) :
    (first >>= second) host scene = second a host after := by
  show andThen first second host scene = _
  rw [andThen, h]

theorem bind_of_error {first : Script α} {second : α → Script β} {failure : Failure}
    (h : first host scene = (.error failure, after)) :
    (first >>= second) host scene = (.error failure, after) := by
  show andThen first second host scene = _
  rw [andThen, h]

theorem attempt_eq (make : Directory → Codecs → Attempt α) (host : Host) (scene : Scene)
    {outcome : Except Failure α} (h : (make scene.dir host.codecs).outcome = outcome) :
    ∃ notices, attempt make host scene = (outcome, { scene with notices }) :=
  ⟨_, by rw [attempt, h]⟩

theorem replace_of_ok (write : Directory → Except Failure Directory) (host : Host) (scene : Scene)
    {dir : Directory} (h : write scene.dir = .ok dir) :
    replace write host scene = (.ok (), { scene with dir }) := by
  simp only [replace, change, h]

theorem replace_of_error (write : Directory → Except Failure Directory) (host : Host)
    (scene : Scene) {failure : Failure} (h : write scene.dir = .error failure) :
    replace write host scene = (.error failure, scene) := by
  simp only [replace, change, h]

/-- Lines that the console accepts are printed. -/
theorem print_of_accepts {lines : List String}
    (h : host.console.accepts scene.printed (lines.map Transcript.plainLine) = true) :
    print lines host scene =
      (.ok (), { scene with printed := scene.printed ++ lines.map Transcript.plainLine }) := by
  induction lines generalizing scene with
  | nil =>
    rw [List.map_nil, List.append_nil]
    rfl
  | cons line rest ih =>
    rw [List.map_cons, Console.accepts, Bool.and_eq_true, Option.isNone_iff_eq_none] at h
    simp only [print, h.1]
    rw [ih h.2]
    simp only [List.append_assoc, List.singleton_append, List.map_cons]

/-- Of other lines those before the first that the console refuses are printed. -/
theorem print_of_not_accepts {lines : List String}
    (h : host.console.accepts scene.printed (lines.map Transcript.plainLine) = false) :
    ∃ failure before, before <+: lines.map Transcript.plainLine ∧
      print lines host scene =
        (.error failure, { scene with printed := scene.printed ++ before }) := by
  induction lines generalizing scene with
  | nil => cases h
  | cons line rest ih =>
    rw [List.map_cons, Console.accepts, Bool.and_eq_false_iff] at h
    simp only [print]
    cases hrefusal : host.console.refusal? scene.printed (Transcript.plainLine line) with
    | some failure =>
      refine ⟨failure, [], List.nil_prefix, ?_⟩
      rw [List.append_nil]
    | none =>
      rw [hrefusal] at h
      have hrest := h.resolve_left (by simp)
      obtain ⟨failure, before, hbefore, hprint⟩ :=
        @ih { scene with printed := scene.printed ++ [Transcript.plainLine line] } hrest
      refine ⟨failure, Transcript.plainLine line :: before, ?_, ?_⟩
      · rw [List.map_cons]
        exact List.prefix_cons_inj _ |>.mpr hbefore
      · rw [hprint]
        simp only [List.append_assoc, List.singleton_append]

/-- A report goes through exactly if its lines are accepted, and leaves the files either way. -/
theorem report_cases (host : Host) (scene : Scene) (r : Report) :
    (host.console.accepts scene.printed (r.lines.map Transcript.plainLine) = true ∧
      report r host scene = (.ok r.status,
        { scene with printed := scene.printed ++ r.lines.map Transcript.plainLine })) ∨
    (host.console.accepts scene.printed (r.lines.map Transcript.plainLine) = false ∧
      ∃ failure printed, report r host scene = (.error failure, { scene with printed })) := by
  cases haccepts : host.console.accepts scene.printed (r.lines.map Transcript.plainLine) with
  | true => exact .inl ⟨rfl, bind_of_ok (print_of_accepts haccepts)⟩
  | false =>
    obtain ⟨failure, before, -, hprint⟩ := print_of_not_accepts haccepts
    exact .inr ⟨rfl, failure, _, bind_of_error hprint⟩

end Script

/-! ## Transcripts -/

theorem FailureKind.status_ne_zero (kind : FailureKind) : kind.status ≠ 0 := by
  cases kind <;> decide

theorem Scene.status_transcript_of_error (scene : Scene) (verbose : Bool) (activity : String)
    (failure : Failure) : (scene.transcript verbose activity (.error failure)).status ≠ 0 :=
  failure.kind.status_ne_zero

namespace Script

variable {host : Host} {dir : Directory} (verbose : Bool) (activity : String)

theorem play_eq {script : Script Nat} {outcome : Except Failure Nat} {scene : Scene}
    (h : script host { dir } = (outcome, scene)) :
    script.play verbose activity host dir =
      (scene.transcript verbose activity outcome, scene.dir) := by
  rw [play, h]

/-- A script that comes down to a report leaves the files, and exits with the status of the report if the
console accepts its lines. -/
theorem play_report {script : Script Nat} {notices : List Notice} {r : Report}
    (h : script host { dir } = report r host { dir, notices }) :
    ∃ transcript, script.play verbose activity host dir = (transcript, dir) ∧
      (host.console.accepts [] (r.lines.map Transcript.plainLine) = true →
        transcript.status = r.status ∧ transcript.output = Transcript.printLines r.lines) := by
  rcases report_cases host { dir, notices } r with ⟨-, hreport⟩ | ⟨hrefused, failure, _, hreport⟩
  · exact ⟨_, play_eq verbose activity (h.trans hreport), fun _ => ⟨rfl, rfl⟩⟩
  · refine ⟨_, play_eq verbose activity (h.trans hreport), fun haccepts => ?_⟩
    rw [haccepts] at hrefused
    cases hrefused

end Script

end SpectrumBasic
