import Mathlib.Data.List.Forall2
import UsageOrder.Name

/-!
# Steps that may end in a fault

A sequence of steps succeeds exactly when each of them does, and so does a step that is taken for
each item of a list.
-/

namespace UsageOrder

variable {ε α β : Type}

theorem bind_eq_ok_iff {step : Except ε α} {next : α → Except ε β} {result : β} :
    (step >>= next) = .ok result ↔ ∃ a, step = .ok a ∧ next a = .ok result := by
  cases step <;> simp [bind, Except.bind]

theorem bind_eq_error_iff {step : Except ε α} {next : α → Except ε β} {fault : ε} :
    (step >>= next) = .error fault ↔
      step = .error fault ∨ ∃ a, step = .ok a ∧ next a = .error fault := by
  cases step <;> simp [bind, Except.bind]

theorem exists_mem_of_forall₂ {R : α → β → Prop} {items : List α} {others : List β}
    (h : List.Forall₂ R items others) {item : α} (hitem : item ∈ items) :
    ∃ other ∈ others, R item other := by
  induction h with
  | nil => exact absurd hitem List.not_mem_nil
  | cons hfirst _ ih =>
    rcases List.mem_cons.1 hitem with rfl | hitem
    · exact ⟨_, List.mem_cons_self .., hfirst⟩
    · obtain ⟨other, hother, hrelated⟩ := ih hitem
      exact ⟨other, List.mem_cons_of_mem _ hother, hrelated⟩

theorem mapM_cons_eq_ok_iff {f : α → Except ε β} {item : α} {items : List α} {results : List β} :
    (item :: items).mapM f = .ok results ↔
      ∃ first rest, f item = .ok first ∧ items.mapM f = .ok rest ∧ results = first :: rest := by
  rw [List.mapM_cons, bind_eq_ok_iff]
  constructor
  · rintro ⟨first, hfirst, h⟩
    obtain ⟨rest, hrest, h⟩ := bind_eq_ok_iff.1 h
    exact ⟨first, rest, hfirst, hrest, (Except.ok.inj h).symm⟩
  · rintro ⟨first, rest, hfirst, hrest, rfl⟩
    exact ⟨first, hfirst, bind_eq_ok_iff.2 ⟨rest, hrest, rfl⟩⟩

/-- A step for each item gives one result for each, in order. -/
theorem mapM_eq_ok_iff {f : α → Except ε β} {items : List α} {results : List β} :
    items.mapM f = .ok results ↔
      List.Forall₂ (fun item result => f item = .ok result) items results := by
  induction items generalizing results with
  | nil =>
    rw [List.mapM_nil, List.forall₂_nil_left_iff]
    exact ⟨fun h => (Except.ok.inj h).symm, fun h => h ▸ rfl⟩
  | cons item items ih =>
    rw [mapM_cons_eq_ok_iff, List.forall₂_cons_left_iff]
    constructor
    · rintro ⟨first, rest, hfirst, hrest, rfl⟩
      exact ⟨first, rest, hfirst, ih.1 hrest, rfl⟩
    · rintro ⟨first, rest, hfirst, hrest, rfl⟩
      exact ⟨first, rest, hfirst, ih.2 hrest, rfl⟩

theorem exists_mem_of_mapM {f : α → Except ε β} {items : List α} {results : List β}
    (h : items.mapM f = .ok results) {item : α} (hitem : item ∈ items) :
    ∃ result ∈ results, f item = .ok result :=
  exists_mem_of_forall₂ (mapM_eq_ok_iff.1 h) hitem

theorem exists_mem_of_mapM_result {f : α → Except ε β} {items : List α} {results : List β}
    (h : items.mapM f = .ok results) {result : β} (hresult : result ∈ results) :
    ∃ item ∈ items, f item = .ok result :=
  exists_mem_of_forall₂ (mapM_eq_ok_iff.1 h).flip hresult

/-- If the steps for the items do not all succeed, one of them has failed. -/
theorem exists_mem_of_mapM_error {f : α → Except ε β} {items : List α} {fault : ε}
    (h : items.mapM f = .error fault) : ∃ item ∈ items, f item = .error fault := by
  induction items with
  | nil => exact absurd h (by simp [pure, Except.pure])
  | cons first items ih =>
    rw [List.mapM_cons] at h
    rcases bind_eq_error_iff.1 h with h | ⟨_, -, h⟩
    · exact ⟨first, List.mem_cons_self .., h⟩
    · rcases bind_eq_error_iff.1 h with h | ⟨_, -, h⟩
      · obtain ⟨item, hitem, heq⟩ := ih h
        exact ⟨item, List.mem_cons_of_mem _ hitem, heq⟩
      · exact absurd h (by simp [pure, Except.pure])

/-- Steps that all succeed for their items succeed together. -/
theorem exists_mapM_of_forall {f : α → Except ε β} {items : List α}
    (h : ∀ item ∈ items, ∃ result, f item = .ok result) : ∃ results, items.mapM f = .ok results := by
  cases hresults : items.mapM f with
  | ok results => exact ⟨results, rfl⟩
  | error fault =>
    obtain ⟨item, hitem, hfault⟩ := exists_mem_of_mapM_error hresults
    obtain ⟨result, hresult⟩ := h item hitem
    exact absurd (hfault.symm.trans hresult) (by simp)

/-- A step without a result that is taken for each item succeeds when it does for all of them. -/
theorem forM_eq_ok_iff {f : α → Except ε Unit} {items : List α} :
    items.forM f = .ok () ↔ ∀ item ∈ items, f item = .ok () := by
  induction items with
  | nil => exact iff_of_true rfl fun _ h => absurd h List.not_mem_nil
  | cons first items ih =>
    rw [List.forall_mem_cons, ← ih]
    change (f first >>= fun _ => items.forM f) = .ok () ↔ _
    rw [bind_eq_ok_iff]
    exact ⟨fun ⟨_, hfirst, hrest⟩ => ⟨hfirst, hrest⟩, fun ⟨hfirst, hrest⟩ => ⟨(), hfirst, hrest⟩⟩

theorem exists_mem_of_forM_error {f : α → Except ε Unit} {items : List α} {fault : ε}
    (h : items.forM f = .error fault) : ∃ item ∈ items, f item = .error fault := by
  induction items with
  | nil => exact absurd h (by simp [List.forM, pure, Except.pure])
  | cons first items ih =>
    change (f first >>= fun _ => items.forM f) = .error fault at h
    rcases bind_eq_error_iff.1 h with hfirst | ⟨_, -, hrest⟩
    · exact ⟨first, List.mem_cons_self .., hfirst⟩
    · obtain ⟨item, hitem, hfault⟩ := ih hrest
      exact ⟨item, List.mem_cons_of_mem _ hitem, hfault⟩

namespace Name

theorem toText_eq_ok_iff {name : Name} {s : String} : name.toText = .ok s ↔ name = .text s := by
  cases name <;> simp [toText]

/-- What counts as equal to a text is that text. -/
theorem eq_text_of_beq {name : Name} {s : String} (h : (name == .text s) = true) :
    name = .text s := by
  have hkey : name.key = .text s := beq_iff_key_eq.1 h
  -- The key of anything that may be a number is a number or composite.
  have hnumber : ∀ size : Option Size, (size.map Key.number).getD .composite ≠ .text s := by
    intro size
    cases size <;> simp
  cases name with
  | text t => rw [Key.text.inj hkey]
  | null => exact absurd hkey (by simp [key])
  | composite => exact absurd hkey (by simp [key])
  | bool b => exact absurd hkey (hnumber (Json.bool b).size?)
  | int n => exact absurd hkey (hnumber (Json.int n).size?)
  | real x => exact absurd hkey (hnumber (Json.real x).size?)

/-- Names that do not count as equal are different. -/
theorem nodup_of_pairwise {names : List Name} (h : names.Pairwise fun a b => (a == b) = false) :
    names.Nodup := by
  refine List.Pairwise.imp ?_ h
  rintro a _ hab rfl
  exact Bool.false_ne_true (hab.symm.trans BEq.rfl)

/-- Names have texts exactly when they are those texts. -/
theorem texts_eq_ok_iff {names : List Name} {ss : List String} :
    texts names = .ok ss ↔ names = ss.map .text := by
  rw [texts, mapM_eq_ok_iff]
  simp only [toText_eq_ok_iff]
  induction names generalizing ss with
  | nil => cases ss <;> simp
  | cons name names ih => cases ss <;> simp [ih]

end Name
end UsageOrder
