/-! Lists given by runs of equal elements. Runs may be empty and neighbours equal, so that a list
has many such forms; each operation here agrees with one on the lists themselves. -/

namespace Chip8

variable {α β : Type}

def stretch (k : Nat) (l : List α) : List α := l.flatMap (List.replicate k)

theorem length_stretch (k : Nat) (l : List α) : (stretch k l).length = l.length * k := by
  induction l with
  | nil => simp [stretch]
  | cons a l ih =>
    have h : stretch k (a :: l) = List.replicate k a ++ stretch k l := rfl
    rw [h, List.length_append, List.length_replicate, ih, List.length_cons, Nat.succ_mul,
      Nat.add_comm]

theorem mem_stretch {k : Nat} {l : List α} {a : α} (h : a ∈ stretch k l) : a ∈ l := by
  obtain ⟨b, hb, h⟩ := List.mem_flatMap.1 h
  exact (List.mem_replicate.1 h).2 ▸ hb

theorem getElem?_stretch {k : Nat} (hk : 0 < k) (l : List α) (i : Nat) :
    (stretch k l)[i]? = l[i / k]? := by
  induction l generalizing i with
  | nil => simp [stretch]
  | cons a l ih =>
    have h : stretch k (a :: l) = List.replicate k a ++ stretch k l := rfl
    rw [h, List.getElem?_append]
    by_cases hi : i < k
    · simp [hi, Nat.div_eq_of_lt hi]
    · have : i / k = (i - k) / k + 1 := by
        rw [← Nat.add_div_right _ hk, Nat.sub_add_cancel (by omega)]
      simp [hi, ih, this]

def layOver (f : β → α → α) : List β → List α → List α
  | a :: as, b :: bs => f a b :: layOver f as bs
  | [], bs => bs
  | _ :: _, [] => []

theorem length_layOver (f : β → α → α) (l : List β) (m : List α) :
    (layOver f l m).length = m.length := by
  fun_induction layOver f l m <;> simp_all

theorem mem_layOver {f : β → α → α} {l : List β} {m : List α} {a : α} (h : a ∈ layOver f l m) :
    a ∈ m ∨ ∃ b, ∃ c ∈ m, a = f b c := by
  fun_induction layOver f l m <;> grind

theorem getElem?_layOver (f : β → α → α) (l : List β) (m : List α) (i : Nat) :
    (layOver f l m)[i]? = match l[i]?, m[i]? with
      | some a, some b => some (f a b)
      | none, some b => some b
      | _, none => none := by
  fun_induction layOver f l m generalizing i with
  | case1 a as b bs ih => cases i <;> simp [ih]
  | case2 => simp; split <;> simp_all
  | case3 => simp

theorem layOver_nil (f : β → α → α) (l : List β) : layOver f l [] = [] := by
  cases l <;> rfl

theorem layOver_replicate (f : β → α → α) (n : Nat) (a : β) (b : α) (l : List β) (m : List α) :
    layOver f (List.replicate n a ++ l) (List.replicate n b ++ m) =
      List.replicate n (f a b) ++ layOver f l m := by
  induction n with
  | zero => rfl
  | succ n ih => simp only [List.replicate_succ, List.cons_append, layOver, ih]

abbrev Runs (α : Type) := List (Nat × α)

namespace Runs

def expand (r : Runs α) : List α := r.flatMap fun p => List.replicate p.1 p.2

def ofList (l : List α) : Runs α := l.map fun a => (1, a)

def stretch (k : Nat) (r : Runs α) : Runs α := r.map fun p => (p.1 * k, p.2)

def layOver (f : β → α → α) : Runs β → Runs α → Runs α
  | [], s => s
  | _ :: _, [] => []
  | (m, a) :: r, (n, b) :: s =>
    if m < n then (m, f a b) :: layOver f r ((n - m, b) :: s)
    else if n < m then (n, f a b) :: layOver f ((m - n, a) :: r) s
    else (m, f a b) :: layOver f r s
termination_by r s => r.length + s.length

@[simp] theorem expand_nil : expand ([] : Runs α) = [] := rfl

@[simp] theorem expand_cons (n : Nat) (a : α) (r : Runs α) :
    expand ((n, a) :: r) = List.replicate n a ++ expand r := rfl

theorem expand_ofList (l : List α) : expand (ofList l) = l := by
  induction l with
  | nil => rfl
  | cons a l ih => simpa [ofList] using ih

theorem expand_map (f : α → β) (r : Runs α) :
    expand (r.map fun p => (p.1, f p.2)) = (expand r).map f := by
  induction r with
  | nil => rfl
  | cons p r ih =>
    obtain ⟨n, a⟩ := p
    simp [ih]

theorem expand_stretch (k : Nat) (r : Runs α) :
    expand (stretch k r) = Chip8.stretch k (expand r) := by
  induction r with
  | nil => rfl
  | cons p r ih =>
    have h (n : Nat) (a : α) :
        Chip8.stretch k (List.replicate n a) = List.replicate (n * k) a := by
      simp [Chip8.stretch, List.flatMap_replicate]
    have happ (l m : List α) :
        Chip8.stretch k (l ++ m) = Chip8.stretch k l ++ Chip8.stretch k m := by
      simp [Chip8.stretch]
    rw [expand_cons, happ, h, ← ih]
    rfl

theorem expand_layOver (f : β → α → α) (r : Runs β) (s : Runs α) :
    expand (layOver f r s) = Chip8.layOver f (expand r) (expand s) := by
  have split {γ : Type} (k n : Nat) (h : k < n) (a : γ) :
      List.replicate n a = List.replicate k a ++ List.replicate (n - k) a := by
    rw [List.replicate_append_replicate, Nat.add_sub_cancel' (Nat.le_of_lt h)]
  fun_induction layOver f r s with
  | case1 => simp [Chip8.layOver]
  | case2 => exact (layOver_nil f _).symm
  | case3 m a r n b s h ih =>
    rw [expand_cons, expand_cons, expand_cons, ih, expand_cons, split m n h b, List.append_assoc,
      layOver_replicate]
  | case4 m a r n b s _ h ih =>
    rw [expand_cons, expand_cons, expand_cons, ih, expand_cons, split n m h a, List.append_assoc,
      layOver_replicate]
  | case5 m a r n b s h h' ih =>
    obtain rfl : m = n := by omega
    rw [expand_cons, expand_cons, expand_cons, ih, layOver_replicate]

end Runs

end Chip8
