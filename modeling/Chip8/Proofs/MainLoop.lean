import Chip8.Proofs.Stock
import Chip8.Proofs.Stopping

/-! The main loop. It goes through the frames of a script up to the first that stops it, shows a
picture after each of them, and closes its window at the end. -/

namespace Chip8

structure Showing.Shows (s : Showing) (n : Nat) (d : Display) (k : Nat) (fg : Color) : Prop where
  ticks : s.ticks = n
  flips : s.flips = n
  blank : n = 0 → s.window = none
  picture : 0 < n → ∃ p, s.window = some p ∧ p.Shows d k fg .night

namespace Frontend

variable {g : Graphics} {h : Frontend} {es : List Event} {fs : List (List Event)} {f : Fault}
  {k : Nat} {fg : Color}

/-! Events and instructions take no notice of the screen. -/

theorem receive_onScreen (h : Frontend) (s : Option Surface) (es : List Event) :
    (h.onScreen s).receive es = (h.receive es).onScreen s := by
  induction es generalizing h with
  | nil => rfl
  | cons e es ih =>
    have he : (h.onScreen s).handle e = (h.handle e).onScreen s := by
      unfold handle
      split
      · rfl
      · split
        · rfl
        · split <;> rfl
      · split <;> rfl
      · rfl
    rw [receive, List.foldl_cons, he]
    exact ih _

theorem cycle_onScreen (h : Frontend) (s : Option Surface) (n : Nat) :
    (h.onScreen s).cycle n = ((h.cycle n).1, (h.cycle n).2.onScreen s) := by
  induction n generalizing h with
  | zero => rfl
  | succ n ih =>
    have hc : (h.onScreen s).console = h.console := rfl
    have hp : (h.onScreen s).pressed = h.pressed := rfl
    rw [cycle, cycle, hc, hp]
    split
    · cases h.pressed with
      | none => rfl
      | some k =>
        dsimp only
        rcases h.console.step (some k) with ⟨g | r, c⟩
        · rfl
        · exact ih { h with console := c, pressed := none }
    · rcases h.console.step none with ⟨g | r, c⟩
      · rfl
      · cases r with
        | halted => rfl
        | executed | waiting => exact ih { h with console := c }

theorem frame_onScreen (h : Frontend) (s : Option Surface) (es : List Event) :
    (h.onScreen s).frame es = ((h.frame es).1, (h.frame es).2.onScreen s) := by
  have hn : ((h.receive es).onScreen s).cycles = (h.receive es).cycles := rfl
  rw [frame, frame, ← receive, ← receive, receive_onScreen, update, update, cycle_onScreen, hn]
  rcases (h.receive es).cycle (h.receive es).cycles with ⟨f | b, g⟩
  · rfl
  · cases b <;> rfl

structure Fresh (h : Frontend) : Prop extends h.Live where
  absent : h.screen = none
  scale : 0 < h.scale

/-- At the end of a script the user leaves. -/
theorem quit_mem (script : List (List Event)) : ∃ es ∈ script ++ [[.quit]], ∃ e ∈ es, e.Stops :=
  ⟨[.quit], by simp, .quit, by simp, .inl rfl⟩

theorem turns_stopped (hr : h.running = false) (s : Showing) (rest : List (List Event)) :
    h.turns g s rest = (.ok (), h, s) := by
  cases rest with
  | nil => rfl
  | cons es rest => rw [turns, if_neg (by simp [hr])]

theorem turn_error (hf : (h.frame es).1 = .error f) (t : Option Surface) (s : Showing) :
    (h.onScreen t).turn g es s = (.error f, (h.frame es).2.onScreen t, s) := by
  simp only [turn, frame_onScreen, hf]

def inWindow (h : Frontend) (q : Picture) : Frontend := h.onScreen (some (.window caption q))

section

variable {q : Picture} {s : Showing} {n : Nat} (hg : g.Serves k)
include hg

/-- A turn without a fault shows the display that the frame has left. -/
theorem turn_ok (hw : (h.inWindow q).Windowed k fg) (hf : (h.frame es).1 = .ok ())
    (hs : s.Shows n h.console.machine.display k fg) :
    ∃ p t, (h.inWindow q).turn g es s = (.ok (), (h.frame es).2.inWindow p, t) ∧
      ((h.frame es).2.inWindow p).Windowed k fg ∧
      t.Shows (n + 1) (h.frame es).2.console.machine.display k fg := by
  obtain ⟨c, key, r, he⟩ := h.frame_eq es
  have hw' : ((h.frame es).2.inWindow q).Windowed k fg := by
    rw [he]
    exact { hw with }
  obtain ⟨p, hp, hshows⟩ := hw'.paint hg s
  refine ⟨p, { ticks := s.ticks + 1, flips := s.flips + 1, window := some p }, ?_, ?_, ?_⟩
  · rw [inWindow] at hp
    simp only [turn, inWindow, frame_onScreen, hf, hp]
    rfl
  · exact { hw' with window := ⟨p, rfl, hshows.width, hshows.height⟩ }
  · exact {
      ticks := congrArg Nat.succ hs.ticks
      flips := congrArg Nat.succ hs.flips
      blank := nofun
      picture := fun _ => ⟨p, rfl, hshows⟩ }

theorem turns_goesOn (h' : h.Live) (hgo : h.GoesOn fs) (hw : (h.inWindow q).Windowed k fg)
    (hs : s.Shows n h.console.machine.display k fg) (rest : List (List Event)) :
    ∃ p t, (h.inWindow q).turns g s (fs ++ rest) =
        ((h.frames fs).inWindow p).turns g t rest ∧
      ((h.frames fs).inWindow p).Windowed k fg ∧
      t.Shows (n + fs.length) (h.frames fs).console.machine.display k fg := by
  induction fs generalizing h q s n with
  | nil => exact ⟨q, s, rfl, hw, hs⟩
  | cons es fs ih =>
    obtain ⟨hok, hl⟩ := h'.not_stops_iff.1 hgo.1
    obtain ⟨p, t, ht, hw', hs'⟩ := turn_ok hg hw hok hs
    obtain ⟨p', t', ht', hw'', hs''⟩ := ih hl hgo.2 hw' hs'
    have hr : (h.inWindow q).running = true := h'.running
    refine ⟨p', t', ?_, hw'', ?_⟩
    · rw [List.cons_append, turns, if_pos hr, ht]
      exact ht'
    · rw [List.length_cons, Nat.add_comm fs.length, ← Nat.add_assoc]
      exact hs''

theorem play_last {script : List (List Event)} (h' : h.Fresh) (hscale : h.scale = k)
    (hfg : h.foreground = fg.ink) (hl : h.LastFrame (script ++ [[.quit]]) fs es) :
    ∃ p s, h.play g script =
        (((h.frames fs).frame es).1, ((h.frames (fs ++ [es])).inWindow p).quit g, s) ∧
      (((h.frames fs).frame es).1 = .ok () →
        s.Shows (fs.length + 1) (h.frames (fs ++ [es])).console.machine.display k fg) ∧
      ∀ f, ((h.frames fs).frame es).1 = .error f →
        s.Shows fs.length (h.frames fs).console.machine.display k fg := by
  have hpos : 0 < k := by
    have := h'.scale
    omega
  obtain ⟨q, hopen, hw⟩ := openWindow_absent hg h'.absent hscale hpos hfg
  obtain ⟨rest, hrest⟩ := hl.within
  have hblank : Showing.Shows {} 0 h.console.machine.display k fg :=
    ⟨rfl, rfl, fun _ => rfl, fun hn => absurd hn (Nat.lt_irrefl 0)⟩
  obtain ⟨p, t, ht, hw', hs⟩ := turns_goesOn hg h'.toLive hl.goesOn hw hblank (es :: rest)
  have hlive := h'.frames hl.goesOn
  have hr : ((h.frames fs).inWindow p).running = true := hlive.running
  have hplay : h.play g script =
      ((((h.frames fs).inWindow p).turns g t (es :: rest)).1,
        (((h.frames fs).inWindow p).turns g t (es :: rest)).2.1.quit g,
        (((h.frames fs).inWindow p).turns g t (es :: rest)).2.2) := by
    rw [← ht, play, hopen, ← hrest, List.append_assoc]
    rfl
  rw [Nat.zero_add] at hs
  rw [frames_concat]
  cases hf : ((h.frames fs).frame es).1 with
  | error f =>
    have hturns : ((h.frames fs).inWindow p).turns g t (es :: rest) =
        (.error f, ((h.frames fs).frame es).2.inWindow p, t) := by
      rw [turns, if_pos hr, inWindow, turn_error hf]
      rfl
    rw [hplay, hturns]
    exact ⟨p, t, rfl, by simp, fun _ _ => hs⟩
  | ok =>
    have hn (f : Fault) : ¬ (h.frames fs).Faults es f := by
      rw [← hlive.frame_error_iff, hf]
      simp
    obtain ⟨p', t', ht', -, hs'⟩ := turn_ok hg hw' hf hs
    have hstop : (((h.frames fs).frame es).2.inWindow p').running = false :=
      hlive.stopped hl.stops hn
    have hturns : ((h.frames fs).inWindow p).turns g t (es :: rest) =
        (.ok (), ((h.frames fs).frame es).2.inWindow p', t') := by
      rw [turns, if_pos hr, ht']
      exact turns_stopped hstop t' rest
    rw [hplay, hturns]
    exact ⟨p', t', rfl, fun _ => hs', by simp⟩

end

/-- With graphics that open its window and draw in it, the loop goes through the frames of a script up
to the first that stops it, at the latest the one in which the user leaves. Unless a step faults in
it, that frame is shown like the others. -/
theorem loop_ends_with_last_frame (g : Graphics) (h : Frontend) (h' : h.Fresh) (hg : g.Serves k)
    (hk : h.scale = k) (hfg : h.foreground = fg.ink) (script : List (List Event)) :
    ∃ fs es p s, h.LastFrame (script ++ [[.quit]]) fs es ∧
      (∀ fs' es', h.LastFrame (script ++ [[.quit]]) fs' es' → fs' = fs ∧ es' = es) ∧
      fs.length + 1 ≤ script.length + 1 ∧
      (h.play g script).2 = (((h.frames (fs ++ [es])).inWindow p).quit g, s) ∧
      ((∀ f, ¬ (h.frames fs).Faults es f) →
        (h.play g script).1 = .ok () ∧ (h.play g script).2.1.running = false ∧
        s.Shows (fs.length + 1) (h.frames (fs ++ [es])).console.machine.display k fg) ∧
      ∀ f, (h.frames fs).Faults es f →
        (h.play g script).1 = .error f ∧
        ((h.play g script).2.1.running = false ↔ ∃ e ∈ es, e.Stops) ∧
        s.Shows fs.length (h.frames fs).console.machine.display k fg ∧
        (h.console.machine.Storable → (∃ pc n, f = .stackOverflow pc n) ∨ ∃ a, f = .badFetch a) := by
  have hlive := h'.toLive
  obtain ⟨fs, es, hl⟩ := h.exists_lastFrame (quit_mem script)
  have hlive' := hlive.frames hl.goesOn
  have hlength : fs.length + 1 ≤ script.length + 1 := by
    simpa using hl.within.length_le
  obtain ⟨p, s, hplay, hok, herror⟩ := play_last hg h' hk hfg hl
  refine ⟨fs, es, p, s, hl, fun _ _ => hl.unique, hlength, congrArg Prod.snd hplay, ?_, ?_⟩
  · intro hn
    have hf : ((h.frames fs).frame es).1 = .ok () := by
      cases hf : ((h.frames fs).frame es).1 with
      | error f => exact absurd (hlive'.frame_error_iff.1 hf) (hn f)
      | ok => rfl
    have hr := hlive'.stopped hl.stops hn
    rw [hplay, frames_concat]
    exact ⟨hf, hr, h.frames_concat fs es ▸ hok hf⟩
  · intro f hf
    have he := hlive'.frame_error_iff.2 hf
    refine ⟨?_, ?_, herror f he, ?_⟩
    · rw [hplay, he]
    · rw [hplay, frames_concat]
      exact hlive'.running_of_faults hf
    · intro hs
      have hs' := hlive.keeps Console.storable_invariant.internal hl.goesOn hs
      exact (hlive'.fault_of_storable hs' hf).1

def playing (program : List UInt8) (delay scale : Int) (ink : Ink) : Frontend where
  console := {
    machine := { memory := Memory.blank.writeBlock Layout.programStart program, delay := delay }
    random := .stream (fun n => n) 0 }
  cycles := cyclesPerFrame 60
  scale := scale
  foreground := ink

theorem playing_fresh (program : List UInt8) (delay : Int) {scale : Int} (hs : 0 < scale)
    (ink : Ink) : (playing program delay scale ink).Fresh := ⟨⟨rfl, rfl, rfl⟩, rfl, hs⟩

def plunging : Frontend := playing [0x12, 0x02, 0x1F, 0xFF] 0 2 Color.phosphor.ink

set_option maxRecDepth 4000 in
theorem loop_ends_with_last_frame_plunging :
    plunging.Fresh ∧ Graphics.stock.Serves 2 ∧ plunging.console.machine.Storable ∧
      plunging.LastFrame ([[.keyDown "q"], [], [.keyDown "ESCAPE"], []] ++ [[.quit]])
        [[.keyDown "q"], []] [.keyDown "ESCAPE"] ∧
      (plunging.play .stock [[.keyDown "q"], [], [.keyDown "ESCAPE"], []]).1 =
        .error (.badFetch 4095) ∧
      (plunging.play .stock [[.keyDown "q"], [], [.keyDown "ESCAPE"], []]).2.1.running = false ∧
      (plunging.play .stock [[.keyDown "q"], [], [.keyDown "ESCAPE"], []]).2.2.flips = 2 := by
  have hfresh : plunging.Fresh := playing_fresh _ _ (by decide) _
  have hlive : (plunging.frame [.keyDown "q"]).2.Live := ⟨rfl, rfl, rfl⟩
  have hlive' : (plunging.frames [[.keyDown "q"], []]).Live := ⟨rfl, rfl, rfl⟩
  have hf : (plunging.frames [[.keyDown "q"], []]).Faults [.keyDown "ESCAPE"] (.badFetch 4095) :=
    hlive'.frame_error_iff.1 rfl
  have hl : plunging.LastFrame ([[.keyDown "q"], [], [.keyDown "ESCAPE"], []] ++ [[.quit]])
      [[.keyDown "q"], []] [.keyDown "ESCAPE"] := {
    within := ⟨[[], [.quit]], rfl⟩
    goesOn := ⟨hfresh.not_stops_iff.2 ⟨rfl, hlive⟩, hlive.not_stops_iff.2 ⟨rfl, hlive'⟩, trivial⟩
    stops := .inr (.inr ⟨_, hf⟩) }
  have hg : Graphics.stock.Serves 2 := Graphics.stock_serves (by decide)
  obtain ⟨fs, es, p, s, -, hu, -, hp, -, herror⟩ :=
    loop_ends_with_last_frame .stock plunging hfresh hg rfl rfl
      [[.keyDown "q"], [], [.keyDown "ESCAPE"], []]
  obtain ⟨rfl, rfl⟩ := hu _ _ hl
  obtain ⟨he, hr, hs, -⟩ := herror _ hf
  refine ⟨hfresh, hg, ⟨by decide, by decide⟩, hl, he, hr.2 ⟨_, List.mem_cons_self, .inr rfl⟩, ?_⟩
  rw [hp]
  exact hs.flips

def EndsWell (g : Graphics) (h : Frontend) (script : List (List Event)) : Prop :=
  ∀ fs es, h.LastFrame (script ++ [[.quit]]) fs es →
    ((∀ f, ¬ (h.frames fs).Faults es f) → (h.play g script).1 = .ok ()) ∧
    ∀ f, (h.frames fs).Faults es f → (h.play g script).2.1.running = false ∧
      ((∃ pc n, f = .stackOverflow pc n) ∨ ∃ a, f = .badFetch a)

def circling (scale : Int) (ink : Ink) : Frontend := playing [0x12, 0x00] 0 scale ink

theorem not_endsWell_circling {scale : Int} (hs : 0 < scale) {ink : Ink} {f : Fault}
    (hf : ((circling scale ink).frame [.quit]).1 = .ok ())
    (hp : ((circling scale ink).play .stock []).1 = .error f) :
    ¬ (circling scale ink).EndsWell .stock [] := by
  intro he
  have hlive : (circling scale ink).Live := (playing_fresh _ _ hs _).toLive
  have hn (f : Fault) : ¬ (circling scale ink).Faults [.quit] f := by
    rw [← hlive.frame_error_iff, hf]
    nofun
  have hl : (circling scale ink).LastFrame ([] ++ [[.quit]]) [] [.quit] :=
    ⟨List.prefix_refl _, trivial, .inl ⟨_, List.mem_cons_self, .inl rfl⟩⟩
  cases hp.symm.trans ((he _ _ hl).1 hn)

set_option maxRecDepth 4000 in
/-- A window may be too large and an ink out of range, a fault alone leaves the front end running,
and a delay that nobody has checked makes a fault of its own. -/
theorem loop_not_endsWell :
    ((circling 257 Color.phosphor.ink).Fresh ∧
      ¬ (circling 257 Color.phosphor.ink).EndsWell .stock []) ∧
    ((circling 1 ⟨0, 256, 0⟩).Fresh ∧ ¬ (circling 1 ⟨0, 256, 0⟩).EndsWell .stock []) ∧
    ((playing [0x1F, 0xFF] 0 1 Color.phosphor.ink).Fresh ∧
      ¬ (playing [0x1F, 0xFF] 0 1 Color.phosphor.ink).EndsWell .stock [[], []]) ∧
    ((playing [0xF0, 0x07] 300 1 Color.phosphor.ink).Fresh ∧
      ¬ (playing [0xF0, 0x07] 300 1 Color.phosphor.ink).EndsWell .stock []) := by
  have hlarge : ((circling 257 Color.phosphor.ink).play .stock []).1 = .error .hugeWindow := rfl
  have hbright : ((circling 1 ⟨0, 256, 0⟩).play .stock []).1 = .error (.badLevel 256) := rfl
  refine ⟨⟨playing_fresh _ _ (by decide) _, not_endsWell_circling (by decide) rfl hlarge⟩,
    ⟨playing_fresh _ _ (by decide) _, not_endsWell_circling (by decide) rfl hbright⟩,
    ⟨playing_fresh _ _ (by decide) _, ?_⟩, ⟨playing_fresh _ _ (by decide) _, ?_⟩⟩
  · intro he
    have hlive : (playing [0x1F, 0xFF] 0 1 Color.phosphor.ink).Live :=
      (playing_fresh _ _ (by decide) _).toLive
    have hlive' : ((playing [0x1F, 0xFF] 0 1 Color.phosphor.ink).frame []).2.Live := ⟨rfl, rfl, rfl⟩
    have hf : ((playing [0x1F, 0xFF] 0 1 Color.phosphor.ink).frames [[]]).Faults [] (.badFetch 4095) :=
      hlive'.frame_error_iff.1 rfl
    have hstop := (he [[]] [] ⟨⟨[[.quit]], rfl⟩, ⟨hlive.not_stops_iff.2 ⟨rfl, hlive'⟩, trivial⟩,
      .inr (.inr ⟨_, hf⟩)⟩).2 _ hf
    cases hstop.1
  · intro he
    have hlive : (playing [0xF0, 0x07] 300 1 Color.phosphor.ink).Live :=
      (playing_fresh _ _ (by decide) _).toLive
    have hf : (playing [0xF0, 0x07] 300 1 Color.phosphor.ink).Faults [.quit] .notByte :=
      hlive.frame_error_iff.1 rfl
    have hstop := (he [] [.quit] ⟨List.prefix_refl _, trivial, .inr (.inr ⟨_, hf⟩)⟩).2 _ hf
    rcases hstop.2 with ⟨_, _, hm⟩ | ⟨_, hm⟩ <;> cases hm

end Frontend

end Chip8
