import Chip8.CommandLine
import Chip8.Proofs.MainLoop

/-! How a run of the command line ends: without a program, with a fault of the machine, with a program
that has finished, or because the user leaves. Nothing else comes of any arguments, files, events and
random numbers. -/

namespace Chip8

def Record.isPrinted (r : Record) : Bool := r.level != .debug

namespace Console

def Quiet (c : Console) : Prop := c.trace.countP Record.isPrinted = 0

theorem quiet_invariant : Invariant Quiet where
  advance h := h
  announce _ h := (List.countP_cons_of_neg (by simp [Record.isPrinted, Record.level])).trans h
  change h hc := (hc.countP ⟨rfl, rfl, rfl⟩).trans h
  store h hs := by
    obtain ⟨-, s, rfl⟩ := storeKey_ok hs
    exact (List.countP_cons_of_neg (by simp [Record.isPrinted, Record.level])).trans h
  read {c} h := by
    rw [readKey_snd]
    exact h
  tick h := h
  press _ h := h
  release _ h := h
  seen h := h

theorem boot_trace {s : Setup} {c : Console} (h : boot s = .ok c) : c.trace = [] := by
  obtain ⟨t, rfl⟩ := eq_of_boot h
  rfl

end Console

namespace CommandLine

def Ending.Unloaded (e : Ending) : Prop :=
  ∃ f : LoadFault,
    e = { code := 1, output := controls ++ "Failed to load ROM: " ++ f.message ++ "\n" }

/-- How a run ends whose last frame has the events `es` and finds the front end `h`. -/
structure Ends (h : Frontend) (es : List Event) (e : Ending) : Prop where
  output : e.output = controls
  failed : e.code = 1 ↔ ∃ f, h.Faults es f
  passed : e.code = 0 ↔ ∀ f, ¬ h.Faults es f
  reported {f : Fault} : h.Faults es f → e.log = "[ERROR]:  Machine fault: " ++ f.message ++ "\n" ∧
    ((∃ pc n, f = .stackOverflow pc n) ∨ ∃ a, f = .badFetch a)
  finished : e.log = "[INFO]:  Program finished\n" ↔
    (h.frame es).2.console.machine.halted = true
  silent : (∀ f, ¬ h.Faults es f) → (h.frame es).2.console.machine.halted = false → e.log = ""

variable {g : Graphics} {e : Ending} {h : Frontend} {es : List Event}

theorem printed_eq_nil {t : List Record} (ht : t.countP Record.isPrinted = 0) :
    t.reverse.filter (·.level != .debug) = [] := by
  rw [List.countP_eq_zero] at ht
  rw [List.filter_eq_nil_iff]
  intro r hr
  exact ht r (List.mem_reverse.1 hr)

theorem log_quiet (hq : e.trace.countP Record.isPrinted = 0) : e.log = "" := by
  rw [Ending.log, printed_eq_nil hq]
  rfl

theorem log_cons {r : Record} {t : List Record} (ht : t.countP Record.isPrinted = 0)
    (hr : r.isPrinted = true) (he : e.trace = r :: t) :
    e.log = "[" ++ r.level.name ++ "]:  " ++ r.message ++ "\n" := by
  have hs : [r].filter (·.level != .debug) = [r] := List.filter_cons_of_pos hr
  rw [Ending.log, he, List.reverse_cons, List.filter_append, printed_eq_nil ht, hs]
  simp [String.join]

theorem log_failed {f : Fault} {t : List Record} (ht : t.countP Record.isPrinted = 0)
    (he : e.trace = .failed f :: t) :
    e.log = "[ERROR]:  Machine fault: " ++ f.message ++ "\n" := by
  have hl : (Record.failed f).level.name = "ERROR" := rfl
  have hm : (Record.failed f).message = "Machine fault: " ++ f.message := rfl
  refine (log_cons ht rfl he).trans ?_
  simp only [hl, hm, ← String.append_assoc, String.reduceAppend]

theorem log_finished {t : List Record} (ht : t.countP Record.isPrinted = 0)
    (he : e.trace = .finished :: t) : e.log = "[INFO]:  Program finished\n" := by
  have hl : Record.finished.level.name = "INFO" := rfl
  have hm : Record.finished.message = "Program finished" := rfl
  refine (log_cons ht rfl he).trans ?_
  simp only [hl, hm, String.reduceAppend]

theorem controls_ne (m : String) : controls ≠ controls ++ "Failed to load ROM: " ++ m ++ "\n" := by
  intro h
  have hl := congrArg String.length h
  have hn : "\n".length = 1 := rfl
  simp only [String.length_append] at hl
  omega

theorem fault_ne_finished (m : String) :
    "[ERROR]:  Machine fault: " ++ m ++ "\n" ≠ "[INFO]:  Program finished\n" := by
  intro h
  have hl := congrArg String.toList h
  simp [String.toList_append] at hl

/-- The last frame of a run that has printed nothing so far. -/
theorem ends (h' : h.Live) (hs : h.console.machine.Storable) (hq : h.console.Quiet)
    (es : List Event) (s : Showing) :
    ∃ e, (match (h.frame es).1 with
        | .error f => report f (h.frame es).2.console.trace s
        | .ok () => .ok {
            code := 0, output := controls, trace := (h.frame es).2.console.trace, showing := s }) =
        .ok e ∧ Ends h es e := by
  have hspent : (h.spent es).Quiet := Frontend.spent_keeps Console.quiet_invariant.internal hq es
  have hc := h.close h'.halted es
  generalize hf : h.frame es = o at hc ⊢
  cases hc with
  | failed f key hfault =>
    obtain ⟨hkind, hhalt⟩ := h'.fault_of_storable hs hfault
    have hone {g : Fault} (hg : h.Faults es g) : g = f := by
      rw [Frontend.faults_iff] at hg hfault
      exact Except.error.inj (hg.symm.trans hfault)
    let e : Ending :=
      { code := 1, output := controls, trace := .failed f :: (h.spent es).trace, showing := s }
    have hlog : e.log = _ := log_failed hspent rfl
    refine ⟨e, by rcases hkind with ⟨_, _, rfl⟩ | ⟨_, rfl⟩ <;> rfl, {
      output := rfl
      failed := iff_of_true rfl ⟨f, hfault⟩
      passed := iff_of_false nofun fun hn => hn f hfault
      reported := fun hg => by
        rw [hone hg]
        exact ⟨hlog, hkind⟩
      finished := by
        rw [hf, hlog]
        exact iff_of_false (fault_ne_finished _) (by simp [hhalt])
      silent := fun hn => absurd hfault (hn f) }⟩
  | halted key hn hd =>
    let e : Ending :=
      { code := 0, output := controls, trace := .finished :: (h.spent es).trace, showing := s }
    have hlog : e.log = _ := log_finished hspent rfl
    exact ⟨e, rfl, {
      output := rfl
      failed := iff_of_false nofun fun ⟨f, hfault⟩ => hn f hfault
      passed := iff_of_true rfl hn
      reported := fun hfault => absurd hfault (hn _)
      finished := by
        rw [hf]
        exact iff_of_true hlog hd
      silent := fun _ hh => by
        rw [hf] at hh
        exact absurd (hd.symm.trans hh) nofun }⟩
  | done hn hd =>
    let e : Ending := { code := 0, output := controls, trace := (h.spent es).trace, showing := s }
    have hlog : e.log = "" := log_quiet hspent
    exact ⟨e, rfl, {
      output := rfl
      failed := iff_of_false nofun fun ⟨f, hfault⟩ => hn f hfault
      passed := iff_of_true rfl hn
      reported := fun hfault => absurd hfault (hn _)
      finished := by
        rw [hf, hlog]
        exact iff_of_false (by decide) fun hh => absurd (hd.symm.trans hh) nofun
      silent := fun _ _ => hlog }⟩

theorem play_ends {program : List UInt8} (hg : g.Serves 12) (hp : program.length ≤ 3584)
    (random : RandomSource) (frames : List (List Event)) :
    ∃ e c fs es, play g program random frames = .ok e ∧
      Console.boot { program := program, random := random } = .ok c ∧
      (frontend c).LastFrame (frames ++ [[.quit]]) fs es ∧ Ends ((frontend c).frames fs) es e := by
  have hcapacity : (1 : Int) ≤ Layout.stackSize := by decide
  obtain ⟨c, t, hboot, hm, hr⟩ :=
    Console.boot_ok { program := program, random := random } hp hcapacity
  have hhalt : c.machine.halted = false := by rw [hm]
  have hs : c.machine.Storable := hm ▸ (Console.start_bounded t _).storable
  have hq : c.Quiet := by
    rw [Console.Quiet, Console.boot_trace hboot]
    rfl
  have hlive : (frontend c).Live := ⟨hr, hhalt, rfl⟩
  have hfresh : (frontend c).Fresh := ⟨hlive, rfl, (by decide : 0 < Frontend.defaultScale)⟩
  obtain ⟨fs, es, hl⟩ := (frontend c).exists_lastFrame (Frontend.quit_mem frames)
  have hs' := hlive.keeps Console.storable_invariant.internal hl.goesOn hs
  have hq' := hlive.keeps Console.quiet_invariant.internal hl.goesOn hq
  have hscale : (frontend c).scale = (12 : Nat) := rfl
  have hfg : (frontend c).foreground = Color.phosphor.ink := rfl
  obtain ⟨p, s, hplay, -, -⟩ := Frontend.play_last hg hfresh hscale hfg hl
  obtain ⟨e, he, hends⟩ := ends (hlive.frames hl.goesOn) hs' hq' es s
  refine ⟨e, c, fs, es, ?_, hboot, hl, hends⟩
  rw [← he, play, hboot]
  dsimp only
  rw [hplay, Frontend.frames_concat]
  cases (((frontend c).frames fs).frame es).1 <;> rfl

theorem run_loaded {path : String} {program : List UInt8}
    {read : String → Except ReadFault (List UInt8)} (h : loadRom (read path) = .ok program)
    (args : List String) (random : RandomSource) (frames : List (List Event)) :
    run g (path :: args) read random frames = play g program random frames := by
  rw [run, h]

theorem run_unloaded {path : String} {f : LoadFault} {read : String → Except ReadFault (List UInt8)}
    (hpath : read path ≠ .error .zeroCharacter) (h : loadRom (read path) = .error f)
    (args : List String) (random : RandomSource) (frames : List (List Event)) :
    run g (path :: args) read random frames =
      .ok { code := 1, output := controls ++ "Failed to load ROM: " ++ f.message ++ "\n" } := by
  rw [run, h]
  cases f with
  | tooLarge => rfl
  | unreadable g =>
    cases g with
    | system => rfl
    | zeroCharacter =>
      cases hr : read path with
      | error g =>
        rw [hr] at h
        cases h
        exact absurd hr hpath
      | ok bytes =>
        rw [hr, loadRom] at h
        split at h <;> cases h

/-- With graphics that open its window and draw in it, a run always ends, with one of three codes:
without arguments, because the program cannot be loaded or the machine fails, or well. Only the first
argument counts. -/
theorem run_ends (g : Graphics) (hg : g.Serves 12) (args : List String)
    (read : String → Except ReadFault (List UInt8)) (random : RandomSource)
    (frames : List (List Event)) (hpath : ∀ path ∈ args.head?, read path ≠ .error .zeroCharacter) :
    ∃ e, run g args read random frames = .ok e ∧
      (e.code = 2 ↔ args = []) ∧
      (e.Unloaded ↔ ∃ path ∈ args.head?,
        ∀ program, read path = .ok program → 3584 < program.length) ∧
      (∀ path ∈ args.head?, ∀ program, read path = .ok program → program.length ≤ 3584 →
        ∃ c fs es, Console.boot { program := program, random := random } = .ok c ∧
          (frontend c).LastFrame (frames ++ [[.quit]]) fs es ∧
          Ends ((frontend c).frames fs) es e) ∧
      run g (args.take 1) read random frames = .ok e := by
  cases args with
  | nil =>
    refine ⟨_, rfl, by simp, iff_of_false ?_ (by simp), by simp, rfl⟩
    rintro ⟨f, hf⟩
    cases congrArg Ending.code hf
  | cons path args =>
    have hp : read path ≠ .error .zeroCharacter := hpath path rfl
    cases hrom : loadRom (read path) with
    | error f =>
      have hrun := run_unloaded (g := g) hp hrom
      refine ⟨_, hrun args random frames, by simp, iff_of_true ⟨f, rfl⟩ ⟨path, rfl, ?_⟩, ?_,
        hrun [] random frames⟩
      · intro program hread
        exact Nat.lt_of_not_le fun hl => nomatch hrom.symm.trans (loadRom_ok_iff.2 ⟨hread, hl⟩)
      · rintro _ ⟨⟩ program hread hl
        cases hrom.symm.trans (loadRom_ok_iff.2 ⟨hread, hl⟩)
    | ok program =>
      obtain ⟨hread, hl⟩ := loadRom_ok_iff.1 hrom
      obtain ⟨e, c, fs, es, he, hboot, hlast, hends⟩ := play_ends hg hl random frames
      have hrun := run_loaded (g := g) hrom
      refine ⟨e, (hrun args random frames).trans he, ?_, ?_, ?_, (hrun [] random frames).trans he⟩
      · refine iff_of_false (fun h2 => ?_) nofun
        by_cases hf : ∃ f, ((frontend c).frames fs).Faults es f
        · cases h2.symm.trans (hends.failed.2 hf)
        · cases h2.symm.trans (hends.passed.2 (not_exists.1 hf))
      · refine iff_of_false ?_ ?_
        · rintro ⟨f, hf⟩
          exact controls_ne _ (hends.output.symm.trans (congrArg Ending.output hf))
        · rintro ⟨_, ⟨⟩, hn⟩
          exact Nat.not_lt.2 hl (hn program hread)
      · rintro _ ⟨⟩ program' hread' -
        cases hread.symm.trans hread'
        exact ⟨c, fs, es, hboot, hlast, hends⟩

def pit : String → Except ReadFault (List UInt8) := fun _ => .ok [0x1F, 0xFF]

set_option maxRecDepth 4000 in
theorem run_ends_pit :
    Graphics.stock.Serves 12 ∧
      (∀ path ∈ ["pit.ch8", "-x"].head?, pit path ≠ .error .zeroCharacter) ∧
      ∃ e, run .stock ["pit.ch8", "-x"] pit (.stream (fun n => n) 0) [[.keyDown "q"], []] = .ok e ∧
        e.code = 1 ∧
        e.log = "[ERROR]:  Machine fault: " ++ (Fault.badFetch 4095).message ++ "\n" := by
  have hg : Graphics.stock.Serves 12 := Graphics.stock_serves (by decide)
  have hpath : ∀ path ∈ ["pit.ch8", "-x"].head?, pit path ≠ .error .zeroCharacter := by
    intro path _
    nofun
  refine ⟨hg, hpath, ?_⟩
  obtain ⟨e, he, -, -, hplay, -⟩ := run_ends .stock hg ["pit.ch8", "-x"] pit
    (.stream (fun n => n) 0) [[.keyDown "q"], []] hpath
  obtain ⟨c, fs, es, hboot, hl, hends⟩ := hplay _ rfl _ rfl (by decide)
  have hlive : (frontend c).Live := by
    cases hboot
    exact ⟨rfl, rfl, rfl⟩
  have hf : (frontend c).Faults [.keyDown "q"] (.badFetch 4095) := by
    rw [← hlive.frame_error_iff]
    cases hboot
    rfl
  have hl' : (frontend c).LastFrame ([[.keyDown "q"], []] ++ [[.quit]]) [] [.keyDown "q"] :=
    ⟨⟨[[], [.quit]], rfl⟩, trivial, .inr (.inr ⟨_, hf⟩)⟩
  obtain ⟨rfl, rfl⟩ := hl'.unique hl
  exact ⟨e, he, hends.failed.2 ⟨_, hf⟩, (hends.reported hf).1⟩

end CommandLine

end Chip8
