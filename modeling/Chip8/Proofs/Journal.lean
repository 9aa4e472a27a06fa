import Chip8.Proofs.Deeds
import Chip8.Proofs.Modes

/-! The trace of a console tells what it has done: each instruction that it has fetched and what is to
be said about it, and each key that has ended a wait, right after the instruction that asked for it. -/

namespace Chip8

namespace Record

theorem message_executing (a : Nat) (i : Instruction) :
    (executing a i).message = "PC=$" ++ Text.hex 3 a ++ " " ++ i.text := rfl

theorem message_stored (k : Key) (x : Int) : (stored k x).message =
    "Key " ++ Text.hex 1 k.val ++ " stored in V" ++ Text.hex 1 x ++ ", resuming" := rfl

end Record

namespace Machine

theorem text_instruction (m : Machine) :
    "PC=$" ++ Text.hex 3 m.pc ++ " " ++ m.instruction.text = m.line := by
  have hs : " " ++ "$" = " $" := by decide
  have hw : m.instruction.word.toNat = m.word := m.toNat_word
  rw [Instruction.text, hw, op_instruction, line, ← hs]
  simp only [String.append_assoc]

theorem message_ignoring (m : Machine) :
    (Record.ignoring m.instruction.word).message = "Ignoring opcode $" ++ Text.hex 4 m.word := by
  have hw : m.instruction.word.toNat = m.word := m.toNat_word
  rw [← hw]
  rfl

theorem message_awaiting (m : Machine) : (Record.awaiting m.instruction.x).message =
    "Waiting for key into V" ++ Text.hex 1 m.target.val := by
  rw [← x_instruction]
  rfl

end Machine

namespace Console

def journal (c : Console) : List String := (c.trace.map Record.message).reverse

structure Tells (c : Console) (l : List Deed) (d : Console) : Prop where
  journal : d.journal = c.journal ++ l.flatMap Deed.messages
  chronicle (h : List Deed) : Chronicle c.machine.due h → Chronicle d.machine.due (h ++ l)

variable {c d e : Console} {i : Instruction} {l l' : List Deed} {key : Option Int} {x : Register}

theorem Tells.trans (h : Tells c l d) (h' : Tells d l' e) : Tells c (l ++ l') e where
  journal := by rw [h'.journal, h.journal, List.flatMap_append, List.append_assoc]
  chronicle t ht := by
    rw [← List.append_assoc]
    exact h'.chronicle _ (h.chronicle t ht)

theorem tells_nothing (ht : d.trace = c.trace) (hd : d.machine.due = c.machine.due) :
    Tells c [] d where
  journal := by rw [Console.journal, ht, List.flatMap_nil, List.append_nil, Console.journal]
  chronicle t h := by
    rw [List.append_nil, hd]
    exact h

theorem Tells.refl (c : Console) : Tells c [] c := tells_nothing rfl rfl

theorem journal_note (c : Console) (r : Record) :
    (c.note r).journal = c.journal ++ [r.message] := by
  simp [journal, note]

theorem journal_announce (h : c.machine.Fetching) :
    (c.advance.announce c.machine.instruction).journal = c.journal ++ [c.machine.line] := by
  have ha : (((c.machine.pc + 2 - 2) % 65536).toNat : Int) = c.machine.pc := by
    have hp := h.2
    omega
  have hj : (c.advance.announce c.machine.instruction).journal = c.journal ++
      [(Record.executing ((c.machine.pc + 2 - 2) % 65536).toNat c.machine.instruction).message] :=
    journal_note ..
  rw [hj, Record.message_executing, ha, Machine.text_instruction]

theorem journal_of_change (h : Change c i d)
    (hop : i.op ∉ [.sys, .unknown, .ret, .awaitKey]) : d.journal = c.journal := by
  cases h with
  | leave hr => exact absurd (by simp [hr]) hop
  | ignore hr => exact absurd (by rcases hr with hr | hr <;> simp [hr]) hop
  | await hr => exact absurd (by simp [hr]) hop
  | _ => rfl

theorem journal_perform {m : Machine} (hs : c.machine.stack = m.stack)
    (h : c.perform m.instruction = .ok d) : d.journal = c.journal ++ m.remarks := by
  have hop := m.op_instruction
  by_cases hr : m.op ∈ [.sys, .unknown, .ret, .awaitKey]
  · simp only [List.mem_cons, List.not_mem_nil, or_false] at hr
    rcases hr with hr | hr | hr | hr <;> rw [hr] at hop <;> simp only [perform, hop] at h
    · cases h
      rw [journal_note, Machine.message_ignoring, Machine.remarks, hr]
    · cases h
      rw [journal_note, Machine.message_ignoring, Machine.remarks, hr]
    · cases hst : m.stack with
      | nil =>
        simp only [Machine.pop?, hs, hst] at h
        cases h
        simp only [journal_note, Machine.remarks, hr, hst, if_true]
        rfl
      | cons a rest =>
        simp only [Machine.pop?, hs, hst] at h
        cases h
        simp only [Machine.remarks, hr, hst, reduceCtorEq, if_false, List.append_nil]
        rfl
    · cases h
      rw [journal_note, Machine.message_awaiting, Machine.remarks, hr]
      rfl
  · rw [Machine.remarks_eq_nil hr, List.append_nil]
    exact journal_of_change (perform_change h) (hop ▸ hr)

theorem due_perform (hf : c.machine.Fetching)
    (h : (c.advance.announce c.machine.instruction).perform c.machine.instruction = .ok d) :
    d.machine.due =
      if c.machine.op = .awaitKey then some (c.machine.target.val : Int) else none := by
  have hop := c.machine.op_instruction
  obtain ⟨hh, hw⟩ := hf.1
  split
  case isTrue ha =>
    rw [ha] at hop
    simp only [perform, hop] at h
    cases h
    rw [Machine.due_eq_some_iff, Machine.mode_eq_waiting, ← Machine.x_instruction]
    exact ⟨⟨hh, rfl⟩, rfl⟩
  case isFalse ha =>
    have hd : d.machine.waiting = false := by
      rw [← hop] at ha
      rw [← hw]
      exact Decidable.by_contra fun hn => ha ((perform_footprint h).waiting hn)
    exact Machine.due_eq_none_iff.2 (Machine.mode_ne_waiting hd)

/-- A fetch is told first, and then what its word gives rise to. -/
theorem tells_fetch (hf : c.machine.Fetching)
    (hj : d.journal = (c.advance.announce c.machine.instruction).journal ++ c.machine.remarks)
    (hd : d.machine.due =
      if c.machine.op = .awaitKey then some (c.machine.target.val : Int) else none) :
    Tells c [.fetch c.machine] d where
  journal := by
    rw [hj, journal_announce hf, List.append_assoc]
    simp [Deed.messages]
  chronicle t ht := by
    rw [Machine.due_eq_none_iff.2 (Machine.mode_ne_waiting hf.1.2)] at ht
    rw [hd]
    split
    case isTrue ha => exact .await ht ha
    case isFalse ha => exact .fetch ht ha

theorem tells_performed (hf : c.machine.Fetching)
    (h : (c.advance.announce c.machine.instruction).perform c.machine.instruction = .ok d) :
    Tells c [.fetch c.machine] d :=
  tells_fetch hf (journal_perform rfl h) (due_perform hf h)

theorem tells_refused {f : Fault} (hf : c.machine.Fetching)
    (h : (c.advance.announce c.machine.instruction).perform c.machine.instruction = .error f) :
    c.machine.op ≠ .awaitKey ∧
      Tells c [.fetch c.machine] (c.advance.announce c.machine.instruction) := by
  have hop : c.machine.op = .call ∨ c.machine.op = .readDelay := by
    rw [← Machine.op_instruction]
    exact (perform_eq_error_iff.1 h).imp And.left And.left
  have ha : c.machine.op ≠ .awaitKey := by rcases hop with hop | hop <;> simp [hop]
  have hr : c.machine.remarks = [] :=
    Machine.remarks_eq_nil (by rcases hop with hop | hop <;> simp [hop])
  refine ⟨ha, tells_fetch hf ?_ ?_⟩
  · rw [hr, List.append_nil]
  · rw [if_neg ha]
    exact Machine.due_eq_none_iff.2 (Machine.mode_ne_waiting hf.1.2)

theorem tells_readKey (c : Console) : Tells c [] c.readKey.2 := by
  refine tells_nothing ?_ ?_
  · rw [readKey_snd]
  · rw [machine_readKey]

theorem tells_storeKey (hx : c.machine.keyRegister = x.val) (hm : c.machine.mode = .waiting)
    (k : Int) : Tells c [.take k c.machine.keyRegister] (c.storeKey k).2 where
  journal := by
    rw [storeKey_eq x hx, journal_note, Record.message_stored, Key.ofInt_val, hx]
    rfl
  chronicle t ht := by
    have hd : (c.storeKey k).2.machine.due = none := by
      rw [storeKey_eq x hx]
      exact Machine.due_eq_none_iff.2 (Machine.mode_ne_waiting rfl)
    rw [Machine.due_eq_some_iff.2 ⟨hm, rfl⟩] at ht
    rw [hd]
    exact .take k ht

theorem tells_resume (hx : c.machine.keyRegister = x.val) (hm : c.machine.mode = .waiting)
    (key : Option Int) :
    Tells c (c.takes key c.machine.keyRegister) (c.resume key).2 := by
  cases key with
  | some k => exact tells_storeKey hx hm k
  | none =>
    have hr := c.tells_readKey
    have hc := c.machine_readKey
    rw [takes, resume]
    cases hk : c.readKey with
    | mk a e =>
      rw [hk] at hr hc
      dsimp only at hr hc
      cases a with
      | none => exact hr
      | some k =>
        rw [← hc] at hx hm ⊢
        exact hr.trans (tells_storeKey hx hm k)

/-- A step that has executed an instruction ends like one of a console that is suspended. -/
theorem settle_snd (hm : c.machine.mode = .waiting) : c.settle.2 = (c.resume none).2 := by
  obtain ⟨hh, hw⟩ := Machine.mode_eq_waiting.1 hm
  rw [settle, if_neg (by simp [hh]), if_pos hw, resume]
  cases hr : c.reader with
  | none => simp [readKey, hr]
  | some r =>
    simp only [Option.isNone_some, Bool.false_eq_true, if_false]
    cases hk : c.readKey with
    | mk a e => cases a <;> rfl

theorem settle_rest (hm : c.machine.mode ≠ .waiting) : c.settle = (.ok c.machine.mode, c) := by
  cases hw : c.machine.waiting with
  | false => exact settle_awake hw
  | true =>
    have hh : c.machine.halted = true := by
      rw [← Bool.not_eq_false]
      exact fun hh => hm (Machine.mode_eq_waiting.2 ⟨hh, hw⟩)
    rw [settle, if_pos hh, Machine.mode, if_pos hh]

theorem tells_step (hx : c.machine.keyRegister = x.val) (key : Option Int) :
    Tells c (c.deeds (.step key)) (c.step key).2 := by
  have ht := c.turn key
  generalize c.step key = o at ht
  rw [deeds]
  cases ht with
  | halted hh =>
    rw [if_neg, if_neg]
    · exact .refl c
    · exact fun hm => Bool.noConfusion (hh.symm.trans (Machine.mode_eq_waiting.1 hm).1)
    · exact fun hf => Bool.noConfusion (hh.symm.trans hf.1.1)
  | suspended hh hw =>
    have hm := Machine.mode_eq_waiting.2 ⟨hh, hw⟩
    rw [if_neg fun hf => Bool.noConfusion (hw.symm.trans hf.1.2), if_pos hm]
    exact tells_resume hx hm key
  | stuck f hr hf =>
    rw [if_neg, if_neg (Machine.mode_ne_waiting hr.2)]
    · exact .refl c
    · intro hn
      rw [Machine.readWord_pc hn] at hf
      cases hf
  | refused i f hi hp =>
    obtain ⟨hf, rfl⟩ := fetching_of_fetch? hi
    obtain ⟨ha, ht⟩ := tells_refused hf hp
    rw [if_pos hf, if_neg ha]
    exact ht
  | done i d hi hp =>
    obtain ⟨hf, rfl⟩ := fetching_of_fetch? hi
    have hd := due_perform hf hp
    have ht := tells_performed hf hp
    rw [if_pos hf]
    split
    case isTrue ha =>
      rw [if_pos ha] at hd
      obtain ⟨hm, hk⟩ := Machine.due_eq_some_iff.1 hd
      have hr : d.reader = c.reader := (perform_change hp).reader
      rw [settle_snd hm, ← hk, ← takes_of_reader hr]
      exact ht.trans (tells_resume hk hm none)
    case isFalse ha =>
      rw [if_neg ha] at hd
      rw [settle_rest (Machine.due_eq_none_iff.1 hd)]
      exact ht

theorem tells_apply (hb : c.machine.Bounded) {e : Command} (he : e.Internal)
    (hr : ∀ n, e ≠ .run n) : Tells c (c.deeds e) (c.apply e).2 := by
  cases e with
  | step key =>
    obtain ⟨x, hx⟩ := exists_register hb.keyRegister
    exact tells_step hx key
  | execute w => exact absurd rfl (he w)
  | run n => exact absurd rfl (hr n)
  | tick | press | release | seen => exact tells_nothing rfl rfl

theorem tells_along (hb : c.machine.Bounded) {es : List Command} (he : ∀ w, .execute w ∉ es)
    (hr : ∀ n, .run n ∉ es) : Tells c (c.deedsAlong es) (c.after es) := by
  induction es generalizing c with
  | nil => exact .refl c
  | cons e es ih =>
    have hi : e.Internal := fun w hw => he w (hw ▸ List.mem_cons_self)
    have hs := tells_apply hb hi fun n hn => hr n (hn ▸ List.mem_cons_self)
    have hes := ih (bounded_invariant.apply hb e) (fun w hw => he w (List.mem_cons_of_mem e hw))
      fun n hn => hr n (List.mem_cons_of_mem e hn)
    exact hs.trans hes

theorem tells_chronicle (hb : c.machine.Bounded) {ds : List Command} (hd : ∀ w, .execute w ∉ ds) :
    Tells c (c.chronicle ds) (c.after ds) := by
  rw [← after_unrolled]
  exact tells_along hb (fun w => c.not_mem_unrolled nofun (hd w)) (c.run_not_mem_unrolled ds)

structure Candid (c : Console) : Prop where
  unfetched (key : Option Int) (f : Fault) : (c.step key).1 = .error f →
    (f = .halted ∨ ∃ a, f = .badFetch a) → (c.step key).2.journal = c.journal
  suspended (key : Option Int) : c.machine.waiting = true →
    (c.step key).2.journal.filter (Text.begins "PC=") = c.journal.filter (Text.begins "PC=")
  overflowed (key : Option Int) (pc : Int) (n : Nat) :
    (c.step key).1 = .error (.stackOverflow pc n) → c.machine.op = .call ∧ c.machine.pc = pc ∧
      (c.step key).2.journal = c.journal ++ [c.machine.line]
  stored (key : Option Int) (k a : Int) : .take k a ∈ c.deeds (.step key) →
    ∃ x : Register, a = x.val ∧ (((c.step key).2.machine.v x).toNat : Int) = k % 16

theorem v_storeKey (hx : c.machine.keyRegister = x.val) (k : Int) :
    (((c.storeKey k).2.machine.v x).toNat : Int) = k % 16 := by
  have hv : (c.storeKey k).2.machine.v x = UInt8.ofNat (k % 16).toNat := by
    rw [storeKey_eq x hx]
    exact (c.machine.registers.get_set x x _).trans (if_pos rfl)
  rw [hv, UInt8.toNat_ofNat_of_lt' (by rw [UInt8.size]; omega)]
  omega

theorem resume_stores {k a : Int} (hx : c.machine.keyRegister = x.val)
    (h : .take k a ∈ c.takes key c.machine.keyRegister) :
    a = x.val ∧ (((c.resume key).2.machine.v x).toNat : Int) = k % 16 := by
  obtain ⟨hk, rfl⟩ := mem_takes.1 h
  refine ⟨hx, ?_⟩
  cases key with
  | some j =>
    obtain rfl := Option.some.inj hk
    exact v_storeKey hx j
  | none =>
    rw [Option.none_or] at hk
    rw [resume_read hk]
    exact v_storeKey (c.machine_readKey ▸ hx) k

theorem step_stores_taken {k a : Int} (hx : c.machine.keyRegister = x.val)
    (h : .take k a ∈ c.deeds (.step key)) :
    ∃ y : Register, a = y.val ∧ (((c.step key).2.machine.v y).toNat : Int) = k % 16 := by
  rw [deeds] at h
  split at h
  case isTrue hf =>
    simp only [List.mem_cons, reduceCtorEq, false_or] at h
    split at h
    case isTrue ha =>
      have hi := fetch?_of_fetching hf
      cases hp : (c.advance.announce c.machine.instruction).perform c.machine.instruction with
      | error f => exact absurd ha (tells_refused hf hp).1
      | ok d =>
        have hd := due_perform hf hp
        rw [if_pos ha, Machine.due_eq_some_iff] at hd
        obtain ⟨hm, hk⟩ := hd
        have hr : d.reader = c.reader := (perform_change hp).reader
        rw [← takes_of_reader hr, ← hk] at h
        rw [step_of_perform hi hp, settle_snd hm]
        exact ⟨_, resume_stores hk h⟩
    case isFalse => cases h
  case isFalse =>
    split at h
    case isTrue hm =>
      obtain ⟨hh, hw⟩ := Machine.mode_eq_waiting.1 hm
      rw [step_waiting hh hw]
      exact ⟨x, resume_stores hx h⟩
    case isFalse => cases h

theorem Orderly.candid (ho : c.Orderly) : c.Candid := by
  obtain ⟨x, hx⟩ := exists_register ho.bounded.keyRegister
  refine ⟨fun key f h hf => ?_, fun key hw => ?_, fun key pc n h => ?_, fun key k a h => ?_⟩
  · have hd := step_error x hx ho.answered h
    generalize (c.step key).2 = d at hd
    cases hd with
    | halted | badFetch => rfl
    | refused w _ t _ _ hr => cases hr <;> simp at hf
  · have ht := tells_step hx key
    have hd : c.deeds (.step key) = c.takes key c.machine.keyRegister := by
      rw [deeds, if_neg fun hf => Bool.noConfusion (hw.symm.trans hf.1.2),
        if_pos (ho.mode_of_waiting hw)]
    rw [ht.journal, List.filter_append, Deed.filter_messages, hd,
      filterMap_takes (f := Deed.fetched?) fun _ _ => rfl, List.map_nil, List.append_nil]
  · have hd := step_error x hx ho.answered h
    have ht := tells_step hx key
    generalize (c.step key).2 = d at hd ht
    cases hd with
    | refused w _ t hr hw hn =>
      obtain ⟨hf, rfl⟩ := Machine.fetching_of_readWord hr hw
      cases hn with
      | full _ hop =>
        have hop : c.machine.op = .call := hop
        have hl : c.machine.remarks = [] := Machine.remarks_eq_nil (by simp [hop])
        have hds : c.deeds (.step key) = [.fetch c.machine] := by
          rw [deeds, if_pos hf, if_neg (by simp [hop])]
        refine ⟨hop, by simp, ?_⟩
        rw [ht.journal, hds]
        simp [Deed.messages, hl]
  · exact step_stores_taken hx h

/-- From power-on the trace tells the fetches in order, each with its address, its word and what that
says, and right after a fetch what its word gives rise to, up to the key that it waits for. Nothing
else is told, and nothing is left out. -/
theorem trace_tells_deeds (s : Setup) (hp : s.program.length ≤ 3584) (hc : 1 ≤ s.capacity)
    (ha : ∀ r, s.reader = some r → ∀ n, (r.answer n).isSome = true) :
    ∃ c, boot s = .ok c ∧ ∀ ds : List Command, (∀ w, .execute w ∉ ds) →
      (c.after ds).journal = (c.chronicle ds).flatMap Deed.messages ∧
      (c.after ds).journal.filter (Text.begins "PC=") =
        ((c.chronicle ds).filterMap Deed.fetched?).map Machine.line ∧
      (c.chronicle ds).filterMap Deed.moment? = c.history ds ∧
      Chronicle (c.after ds).machine.due (c.chronicle ds) ∧
      (c.after ds).Candid := by
  obtain ⟨c, u, hboot, hm, hr⟩ := boot_ok s hp hc
  have ho : c.Orderly := {
    bounded := hm ▸ start_bounded u _
    answered := fun r hs => ha r (hr ▸ hs)
    suspended := by simp [hm] }
  have hj : c.journal = [] := by
    obtain ⟨t, rfl⟩ := eq_of_boot hboot
    rfl
  have hn : c.machine.due = none := by rw [hm]; rfl
  refine ⟨c, hboot, fun ds hd => ?_⟩
  have ht := tells_chronicle ho.bounded hd
  have hw : (c.after ds).journal = (c.chronicle ds).flatMap Deed.messages := by
    rw [ht.journal, hj, List.nil_append]
  refine ⟨hw, ?_, ?_, ?_, (orderly_invariant.after ho ds hd).candid⟩
  · rw [hw, Deed.filter_messages]
  · exact moment?_deedsAlong c fun w => c.not_mem_unrolled nofun (hd w)
  · exact ht.chronicle [] (hn ▸ .nil)

def rewriting : Setup where
  program := [0xA2, 0x05, 0xF0, 0x55, 0x01, 0x23, 0xF3, 0x0A, 0x00, 0xEE]
  random := .stream (fun n => n) 0

def rewritten : Console where
  machine := {
    memory := (Memory.blank.writeBlock 0 Font.bytes).writeBlock 0x200 rewriting.program }
  random := rewriting.random

set_option maxRecDepth 4000 in
/-- A halted program tells nothing more. -/
theorem trace_tells_deeds_rewritten :
    rewriting.program.length ≤ 3584 ∧ 1 ≤ rewriting.capacity ∧
      (∀ r, rewriting.reader = some r → ∀ n, (r.answer n).isSome = true) ∧
      boot rewriting = .ok rewritten ∧
      (rewritten.after [.run 9, .tick, .step none, .step (some 27), .run 5, .step none]).journal =
        ["PC=$200 $A205 LD_I", "PC=$202 $F055 LD_MEM_VX", "PC=$204 $0100 SYS",
          "Ignoring opcode $0100", "PC=$206 $F30A LD_VX_K", "Waiting for key into V3",
          "Key B stored in V3, resuming", "PC=$208 $00EE RET",
          "Return with empty stack, terminating"] := by
  have hp : rewriting.program.length ≤ 3584 := by decide
  have hc : 1 ≤ rewriting.capacity := by decide
  have ha : ∀ r, rewriting.reader = some r → ∀ n, (r.answer n).isSome = true := nofun
  have hb : boot rewriting = .ok rewritten := rfl
  obtain ⟨c, hboot, h⟩ := trace_tells_deeds rewriting hp hc ha
  obtain rfl := Except.ok.inj (hb.symm.trans hboot)
  refine ⟨hp, hc, ha, hb, ?_⟩
  rw [(h _ (by simp)).1]
  decide +kernel

end Console

end Chip8
