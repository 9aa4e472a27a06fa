import Chip8.Proofs.History

/-! What a console does that its trace tells: it fetches words, and a key ends a wait. All of it is
read off the states that a history passes through, and none of it off the trace. -/

namespace Chip8

namespace Text

def begins (start s : String) : Bool := start.toList.isPrefixOf s.toList

theorem begins_append (s t : String) : begins s (s ++ t) = true := by
  simp [begins]

end Text

namespace Machine

def word (m : Machine) : Nat :=
  256 * (m.memory.read m.pc).toNat + (m.memory.read (m.pc + 1)).toNat

def instruction (m : Machine) : Instruction := .ofWord (UInt16.ofNat m.word)

def op (m : Machine) : Opcode := .ofWord m.word

def target (m : Machine) : Register := Opcode.digit m.word 2

def Fetching (m : Machine) : Prop := m.Running ∧ 0 ≤ m.pc ∧ m.pc ≤ 0xFFE

instance (m : Machine) : Decidable m.Fetching :=
  inferInstanceAs (Decidable ((_ ∧ _) ∧ _ ∧ _))

def due (m : Machine) : Option Int := if m.mode = .waiting then some m.keyRegister else none

def line (m : Machine) : String :=
  "PC=$" ++ Text.hex 3 m.pc ++ " $" ++ Text.hex 4 m.word ++ " " ++ m.op.mnemonic

def remarks (m : Machine) : List String :=
  match m.op with
  | .sys | .unknown => ["Ignoring opcode $" ++ Text.hex 4 m.word]
  | .ret => if m.stack = [] then ["Return with empty stack, terminating"] else []
  | .awaitKey => ["Waiting for key into V" ++ Text.hex 1 m.target]
  | _ => []

variable {m : Machine}

theorem word_le (m : Machine) : m.word ≤ 0xFFFF := by
  have hi := (m.memory.read m.pc).toNat_lt
  have lo := (m.memory.read (m.pc + 1)).toNat_lt
  rw [word]
  omega

theorem toNat_word (m : Machine) : (UInt16.ofNat m.word).toNat = m.word :=
  UInt16.toNat_ofNat_of_lt' (Nat.lt_succ_of_le m.word_le)

theorem op_instruction (m : Machine) : m.instruction.op = m.op := by
  rw [instruction, Instruction.ofWord, toNat_word, op]

theorem x_instruction (m : Machine) : m.instruction.x = m.target := by
  rw [instruction, Instruction.ofWord, toNat_word, target]

theorem readWord_pc (h : m.Fetching) : m.readWord m.pc = .ok m.word := by
  have hpc := h.2
  rw [readWord, if_neg (by omega)]
  rfl

theorem fetching_of_readWord {w : Nat} (hr : m.Running) (hw : m.readWord m.pc = .ok w) :
    m.Fetching ∧ m.word = w := by
  obtain ⟨h0, h1, -⟩ := m.readWord_range _ hw
  have hf : m.Fetching := ⟨hr, h0, h1⟩
  rw [readWord_pc hf] at hw
  exact ⟨hf, Except.ok.inj hw⟩

theorem due_eq_some_iff {x : Int} : m.due = some x ↔ m.mode = .waiting ∧ m.keyRegister = x := by
  rw [due]
  split <;> simp_all

theorem due_eq_none_iff : m.due = none ↔ m.mode ≠ .waiting := by
  rw [due]
  split <;> simp_all

theorem mode_ne_waiting (h : m.waiting = false) : m.mode ≠ .waiting := by
  rw [ne_eq, mode_eq_waiting, h]
  exact fun hn => nomatch hn.2

/-- Only four kinds of instructions are remarked on. -/
theorem remarks_eq_nil (h : m.op ∉ [.sys, .unknown, .ret, .awaitKey]) : m.remarks = [] := by
  unfold remarks
  split <;> simp_all

theorem not_begins_remarks (m : Machine) :
    m.remarks.filter (Text.begins "PC=") = [] := by
  unfold remarks
  split
  case h_3 => split <;> rfl
  all_goals simp [Text.begins, List.isPrefixOf]

end Machine

inductive Deed
  | fetch (m : Machine)
  | take (key register : Int)

namespace Deed

def messages : Deed → List String
  | fetch m => m.line :: m.remarks
  | take k x => ["Key " ++ Text.hex 1 (k % 16) ++ " stored in V" ++ Text.hex 1 x ++ ", resuming"]

def fetched? : Deed → Option Machine
  | fetch m => some m
  | take .. => none

def moment? : Deed → Option Moment
  | fetch m => some ⟨{ m with pc := m.pc + 2 }, m.instruction⟩
  | take .. => none

/-- Only fetches are told like this. -/
theorem filter_messages (l : List Deed) :
    (l.flatMap messages).filter (Text.begins "PC=") = (l.filterMap fetched?).map Machine.line := by
  induction l with
  | nil => rfl
  | cons d l ih =>
    rw [List.flatMap_cons, List.filter_append, ih]
    cases d with
    | fetch m =>
      have hb : Text.begins "PC=" m.line = true := by
        have hs : "PC=$" = "PC=" ++ "$" := by decide
        rw [Machine.line, hs]
        simp only [String.append_assoc]
        exact Text.begins_append ..
      rw [messages, List.filter_cons_of_pos hb, m.not_begins_remarks]
      rfl
    | take k x =>
      have hb : (messages (take k x)).filter (Text.begins "PC=") = [] := by
        simp [messages, Text.begins, List.isPrefixOf]
      rw [hb]
      rfl

end Deed

/-- Deeds in a possible order, and the register that they leave a key due for: a key is due after an
instruction that awaits one and is the next thing to be told. -/
inductive Chronicle : Option Int → List Deed → Prop
  | nil : Chronicle none []
  | fetch {l : List Deed} {m : Machine} : Chronicle none l → m.op ≠ .awaitKey →
      Chronicle none (l ++ [.fetch m])
  | await {l : List Deed} {m : Machine} : Chronicle none l → m.op = .awaitKey →
      Chronicle (some m.target.val) (l ++ [.fetch m])
  | take {l : List Deed} {x : Int} (k : Int) : Chronicle (some x) l →
      Chronicle none (l ++ [.take k x])

namespace Console

def takes (c : Console) (key : Option Int) (x : Int) : List Deed :=
  (key.or c.readKey.1).toList.map (.take · x)

def deeds (c : Console) : Command → List Deed
  | .step key =>
    if c.machine.Fetching then
      .fetch c.machine ::
        if c.machine.op = .awaitKey then c.takes none c.machine.target.val else []
    else if c.machine.mode = .waiting then c.takes key c.machine.keyRegister
    else []
  | _ => []

def deedsAlong (c : Console) : List Command → List Deed
  | [] => []
  | e :: es => c.deeds e ++ (c.apply e).2.deedsAlong es

def chronicle (c : Console) (ds : List Command) : List Deed := c.deedsAlong (c.unrolled ds)

variable {c d : Console} {i : Instruction}

theorem fetch?_of_fetching (h : c.machine.Fetching) : c.fetch? = some c.machine.instruction :=
  fetch?_eq_some_iff.2
    ⟨h.1, _, Machine.readWord_pc h, Instruction.decode_word c.machine.word_le⟩

theorem fetching_of_fetch? (h : c.fetch? = some i) :
    c.machine.Fetching ∧ i = c.machine.instruction := by
  obtain ⟨hr, w, hw, -⟩ := fetch?_eq_some_iff.1 h
  have hf := (Machine.fetching_of_readWord hr hw).1
  rw [fetch?_of_fetching hf] at h
  exact ⟨hf, (Option.some.inj h).symm⟩

theorem takes_of_reader (h : d.reader = c.reader) (key : Option Int) (a : Int) :
    d.takes key a = c.takes key a := by
  rw [takes, takes, readKey, readKey, h]
  cases c.reader <;> rfl

theorem mem_takes {k a b : Int} :
    .take k b ∈ c.takes key a ↔ key.or c.readKey.1 = some k ∧ b = a := by
  rw [takes, List.mem_map]
  constructor
  · rintro ⟨j, hj, he⟩
    cases he
    exact ⟨Option.mem_toList.1 hj, rfl⟩
  · rintro ⟨hk, rfl⟩
    exact ⟨k, Option.mem_toList.2 hk, rfl⟩

theorem filterMap_takes {β : Type} {f : Deed → Option β} (hf : ∀ k a, f (.take k a) = none)
    (c : Console) (key : Option Int) (a : Int) : (c.takes key a).filterMap f = [] := by
  rw [takes]
  cases key.or c.readKey.1 with
  | none => rfl
  | some k => exact List.filterMap_cons_none (hf k a)

theorem moment?_deeds (c : Console) {e : Command} (he : e.Internal) :
    (c.deeds e).filterMap Deed.moment? = (c.moment? e).toList := by
  cases e with
  | step key =>
    have ht := c.filterMap_takes (f := Deed.moment?) fun _ _ => rfl
    rw [deeds, moment?]
    by_cases hf : c.machine.Fetching
    · have hm : (Deed.fetch c.machine).moment? =
          some ⟨c.advance.machine, c.machine.instruction⟩ := rfl
      rw [if_pos hf, fetch?_of_fetching hf, List.filterMap_cons_some hm]
      split
      · rw [ht]
        rfl
      · rfl
    · have hn : c.fetch? = none := by
        cases hi : c.fetch? with
        | none => rfl
        | some i => exact absurd (fetching_of_fetch? hi).1 hf
      rw [if_neg hf, hn]
      split
      · rw [ht]
        rfl
      · rfl
  | execute w => exact absurd rfl (he w)
  | run | tick | press | release | seen => rfl

theorem moment?_deedsAlong (c : Console) {es : List Command} (he : ∀ w, .execute w ∉ es) :
    (c.deedsAlong es).filterMap Deed.moment? = c.moments es := by
  induction es generalizing c with
  | nil => rfl
  | cons e es ih =>
    rw [deedsAlong, List.filterMap_append, moments,
      moment?_deeds c fun w hw => he w (hw ▸ List.mem_cons_self),
      ih _ fun w hw => he w (List.mem_cons_of_mem e hw)]

end Console

end Chip8
