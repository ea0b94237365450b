import Mathlib.Data.List.Chain
import Mathlib.Data.List.Forall2
import Mathlib.Data.List.Induction
import Mathlib.Data.List.Nodup
import Mathlib.Data.Nat.Basic
import Mathlib.Order.Defs.LinearOrder

/-! # Lists

Lists that grow at their end, lists without repetitions, and lists that are matched member by
member. -/

namespace RoadAudit

variable {β γ : Type}

/-! ## One more member -/

theorem getElem?_snoc (l : List β) (a : β) (k : Nat) :
    (l ++ [a])[k]? = if k = l.length then some a else l[k]? := by
  split
  case isTrue hk => rw [hk, List.getElem?_concat_length]
  case isFalse hk =>
    rcases Nat.lt_or_gt_of_ne hk with hlt | hgt
    · rw [List.getElem?_append_left hlt]
    · rw [List.getElem?_eq_none hgt.le, List.getElem?_eq_none]
      rw [List.length_append, List.length_singleton]
      exact hgt

theorem getElem?_snoc_eq_some_iff {l : List β} {a b : β} {k : Nat} :
    (l ++ [a])[k]? = some b ↔ l[k]? = some b ∨ (k = l.length ∧ b = a) := by
  rw [getElem?_snoc]
  by_cases hk : k = l.length <;> simp [hk, eq_comm]

/-- A choice that is kept while a list is run through comes from one of its members. -/
theorem exists_mem_of_foldl_eq_some {f : Option γ → β → Option γ} {R : β → γ → Prop} {l : List β}
    {c : γ} (h : l.foldl f none = some c)
    (hf : ∀ best b c, f best b = some c → best = some c ∨ R b c) : ∃ b ∈ l, R b c := by
  induction l using List.reverseRecOn with
  | nil => cases h
  | append_singleton l b ih =>
    rw [List.foldl_append] at h
    rcases hf _ b c h with hbest | hb
    · obtain ⟨a, ha, hac⟩ := ih hbest
      exact ⟨a, List.mem_append_left _ ha, hac⟩
    · exact ⟨b, List.mem_append_right _ (List.mem_singleton_self _), hb⟩

section Repetitions

variable [BEq β] [LawfulBEq β] {l l' : List β} {x : β}

theorem eraseDups_append_of_mem (h : x ∈ l) (rest : List β) :
    (l ++ x :: rest).eraseDups = (l ++ rest).eraseDups := by
  rw [List.eraseDups_append, List.eraseDups_append]
  simp [List.removeAll, h]

theorem eraseDups_snoc_of_mem (h : x ∈ l) : (l ++ [x]).eraseDups = l.eraseDups := by
  rw [eraseDups_append_of_mem h, List.append_nil]

theorem eraseDups_snoc_of_not_mem (h : x ∉ l) : (l ++ [x]).eraseDups = l.eraseDups ++ [x] := by
  rw [List.eraseDups_append]
  simp [List.removeAll, h, List.eraseDups_cons]

theorem getElem?_eraseDups_snoc {n : Nat} {y : β} (h : l.eraseDups[n]? = some y) :
    (l ++ [x]).eraseDups[n]? = some y := by
  by_cases hx : x ∈ l
  · rwa [eraseDups_snoc_of_mem hx]
  · rw [eraseDups_snoc_of_not_mem hx, getElem?_snoc_eq_some_iff]
    exact .inl h

theorem eraseDups_append_congr (h : l.eraseDups = l'.eraseDups) (rest : List β) :
    (l ++ rest).eraseDups = (l' ++ rest).eraseDups := by
  have hmem : ∀ y, y ∈ l ↔ y ∈ l' := fun y => by
    rw [← List.mem_eraseDups, h, List.mem_eraseDups]
  rw [List.eraseDups_append, List.eraseDups_append, h]
  simp [List.removeAll, hmem]

end Repetitions

/-! ## Matched lists and lists of lists -/

theorem rel_of_forall₂ {R : β → γ → Prop} {l : List β} {l' : List γ} (h : List.Forall₂ R l l')
    {i : Nat} {b : β} {c : γ} (hb : l[i]? = some b) (hc : l'[i]? = some c) : R b c := by
  obtain ⟨hi, rfl⟩ := List.getElem?_eq_some_iff.mp hb
  obtain ⟨hi', rfl⟩ := List.getElem?_eq_some_iff.mp hc
  exact h.get hi hi'

theorem foldlM_flatMap {m : Type → Type} [Monad m] [LawfulMonad m] {σ : Type} (f : β → List γ)
    (step : σ → γ → m σ) (l : List β) (s : σ) :
    (l.flatMap f).foldlM step s = l.foldlM (fun s b => (f b).foldlM step s) s := by
  induction l generalizing s with
  | nil => rfl
  | cons b l ih => simp [List.foldlM_append, ih]

/-- What is matched with joined lists can be cut where they are joined. -/
theorem exists_flatten_of_forall₂_flatMap {R : β → γ → Prop} {δ : Type} (f : δ → List γ)
    {ds : List δ} {l : List β} (h : List.Forall₂ R l (ds.flatMap f)) :
    ∃ runs, l = runs.flatten ∧ List.Forall₂ (fun d run => List.Forall₂ R run (f d)) ds runs := by
  induction ds generalizing l with
  | nil =>
    obtain rfl : l = [] := List.forall₂_nil_right_iff.mp h
    exact ⟨[], rfl, .nil⟩
  | cons d ds ih =>
    rw [List.flatMap_cons] at h
    obtain ⟨runs, hl, hruns⟩ := ih (List.forall₂_drop_append _ _ _ h)
    refine ⟨l.take (f d).length :: runs, ?_, .cons (List.forall₂_take_append _ _ _ h) hruns⟩
    rw [List.flatten_cons, ← hl, List.take_append_drop]

theorem isChain_of_forall₂ {R : β → γ → Prop} {S : γ → γ → Prop} {T : β → β → Prop}
    (hlink : ∀ v u s t, R v s → R u t → S s t → T v u) {l : List β} {l' : List γ}
    (h : List.Forall₂ R l l') (hchain : l'.IsChain S) : l.IsChain T := by
  induction h with
  | nil => exact .nil
  | @cons v s l l' hvs h ih =>
    rw [List.isChain_cons] at hchain ⊢
    refine ⟨fun u hu => ?_, ih hchain.2⟩
    cases h with
    | nil => cases hu
    | @cons u' t _ _ hut _ =>
      obtain rfl := Option.some.inj hu
      exact hlink v u' s t hvs hut (hchain.1 t rfl)

theorem exists_forall₂_iff {R : β → γ → Prop} {l : List β} :
    (∃ l', List.Forall₂ R l l') ↔ ∀ b ∈ l, ∃ c, R b c := by
  induction l with
  | nil => simp
  | cons b l ih =>
    rw [List.forall_mem_cons, ← ih]
    constructor
    · rintro ⟨_, hb | ⟨hb, hl⟩⟩
      exact ⟨⟨_, hb⟩, _, hl⟩
    · rintro ⟨⟨c, hb⟩, l', hl⟩
      exact ⟨c :: l', .cons hb hl⟩

theorem forall₂_filter_filterMap {p : β → Bool} {f : β → Option γ} {R : β → γ → Prop}
    (hp : ∀ b, p b = true ↔ ∃ c, f b = some c) (hR : ∀ b c, f b = some c → R b c) (l : List β) :
    List.Forall₂ R (l.filter p) (l.filterMap f) := by
  induction l with
  | nil => exact .nil
  | cons b l ih =>
    cases hb : f b with
    | none =>
      have hnot : ¬ p b = true := by simp [hp, hb]
      rwa [List.filterMap_cons_none hb, List.filter_cons_of_neg hnot]
    | some c =>
      rw [List.filterMap_cons_some hb, List.filter_cons_of_pos ((hp b).mpr ⟨c, hb⟩)]
      exact .cons (hR b c hb) ih

/-! ## Maps that may fail -/

theorem mapM_eq_some_iff {f : β → Option γ} {l : List β} {l' : List γ} :
    l.mapM f = some l' ↔ List.Forall₂ (fun b c => f b = some c) l l' := by
  induction l generalizing l' with
  | nil => simp [eq_comm]
  | cons b l ih =>
    rw [List.mapM_cons, List.forall₂_cons_left_iff]
    simp only [← ih]
    simp [Option.bind_eq_some_iff, eq_comm (a := l')]

theorem mem_iff_of_mapM_eq_some {f : β → Option γ} {l : List β} {l' : List γ}
    (h : l.mapM f = some l') (c : γ) : c ∈ l' ↔ ∃ b ∈ l, f b = some c := by
  have hmap : l.map f = l'.map some := by
    rw [← List.forall₂_eq_eq_eq, List.forall₂_map_left_iff, List.forall₂_map_right_iff]
    exact mapM_eq_some_iff.mp h
  calc c ∈ l' ↔ some c ∈ l'.map some := by simp
    _ ↔ ∃ b ∈ l, f b = some c := by rw [← hmap, List.mem_map]

theorem mapM_eq_some_map {l : List β} {f : β → Option γ} {g : β → γ}
    (h : ∀ b ∈ l, f b = some (g b)) : l.mapM f = some (l.map g) :=
  mapM_eq_some_iff.mpr (List.forall₂_map_right_iff.mpr (List.forall₂_same.mpr h))

end RoadAudit
