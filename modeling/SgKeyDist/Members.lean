import SgKeyDist.Identity

namespace SgKeyDist.Members

open SgKeyDist.ByteOrder SgKeyDist.Identity

/-- `std::map<thumbPrint, xmpk>`: a member's thumbprint and the X25519 public key
converted from its signing key, in strictly ascending thumbprint order. -/
structure MbrList where
  entries : List (ThumbPrint × Bytes)
  sorted : entries.Pairwise (fun a b => a.1 < b.1)

namespace MbrList

def empty : MbrList := ⟨[], .nil⟩

def size (m : MbrList) : Nat := m.entries.length

/-- Single pass insert-or-replace, the `m_mbrList[tp] = x` of `addGroupMem`. -/
def insertAux (k : ThumbPrint) (x : Bytes) : List (ThumbPrint × Bytes) → List (ThumbPrint × Bytes)
  | [] => [(k, x)]
  | e :: rest =>
    if k < e.1 then (k, x) :: e :: rest
    else if k = e.1 then (k, x) :: rest
    else e :: insertAux k x rest

theorem mem_insertAux {k : ThumbPrint} {x : Bytes} {a : ThumbPrint × Bytes} :
    ∀ {l : List (ThumbPrint × Bytes)}, a ∈ insertAux k x l → a = (k, x) ∨ a ∈ l
  | [], h => by simpa [insertAux] using h
  | e :: rest, h => by
    unfold insertAux at h
    split_ifs at h
    · simpa using h
    · simp only [List.mem_cons] at h ⊢; tauto
    · simp only [List.mem_cons] at h ⊢
      rcases h with h | h
      · exact .inr (.inl h)
      · rcases mem_insertAux h with h | h <;> simp [h]

theorem insertAux_sorted (k : ThumbPrint) (x : Bytes) :
    ∀ {l : List (ThumbPrint × Bytes)}, l.Pairwise (fun a b => a.1 < b.1) →
      (insertAux k x l).Pairwise (fun a b => a.1 < b.1)
  | [], _ => by simp [insertAux]
  | e :: rest, h => by
    rw [List.pairwise_cons] at h
    unfold insertAux
    split_ifs with h₁ h₂
    · refine List.Pairwise.cons (fun a ha => ?_) (List.Pairwise.cons h.1 h.2)
      rcases List.mem_cons.mp ha with rfl | ha
      · exact h₁
      · exact lt_trans h₁ (h.1 a ha)
    · subst h₂; exact List.Pairwise.cons h.1 h.2
    · refine List.Pairwise.cons (fun a ha => ?_) (insertAux_sorted k x h.2)
      rcases mem_insertAux ha with rfl | ha
      · exact lt_of_le_of_ne (not_lt.mp h₁) (Ne.symm h₂)
      · exact h.1 a ha

theorem length_insertAux_le (k : ThumbPrint) (x : Bytes) :
    ∀ l : List (ThumbPrint × Bytes), (insertAux k x l).length ≤ l.length + 1
  | [] => by simp [insertAux]
  | e :: rest => by
    unfold insertAux
    have := length_insertAux_le k x rest
    split_ifs <;> simp only [List.length_cons] <;> omega

theorem length_insertAux (k : ThumbPrint) (x : Bytes) :
    ∀ l : List (ThumbPrint × Bytes), (∀ y, (k, y) ∉ l) → (insertAux k x l).length = l.length + 1
  | [], _ => rfl
  | e :: rest, h => by
    have hne : k ≠ e.1 := fun he => h e.2 (he ▸ List.mem_cons_self _ _)
    unfold insertAux
    rw [if_neg hne]
    split_ifs
    · rfl
    · simp only [List.length_cons, length_insertAux k x rest fun y hy => h y (List.mem_cons_of_mem _ hy)]

def insert (m : MbrList) (k : ThumbPrint) (x : Bytes) : MbrList :=
  ⟨insertAux k x m.entries, insertAux_sorted k x m.sorted⟩

/-- `std::erase_if(m_mbrList, p)`. -/
def eraseIf (m : MbrList) (p : ThumbPrint × Bytes → Bool) : MbrList :=
  ⟨m.entries.filter (fun e => !p e), m.sorted.filter _⟩

/-- `m_mbrList.erase(tp)`. -/
def erase (m : MbrList) (k : ThumbPrint) : MbrList := m.eraseIf (fun e => e.1 = k)

theorem mem_insert {m : MbrList} {k : ThumbPrint} {x : Bytes} {a : ThumbPrint × Bytes}
    (h : a ∈ (m.insert k x).entries) : a = (k, x) ∨ a ∈ m.entries := mem_insertAux h

theorem mem_insert_self (m : MbrList) (k : ThumbPrint) (x : Bytes) :
    (k, x) ∈ (m.insert k x).entries := by
  show (k, x) ∈ insertAux k x m.entries
  induction m.entries with
  | nil => simp [insertAux]
  | cons e rest ih => unfold insertAux; split_ifs <;> simp [ih]

theorem mem_eraseIf {m : MbrList} {p : ThumbPrint × Bytes → Bool} {a : ThumbPrint × Bytes} :
    a ∈ (m.eraseIf p).entries ↔ a ∈ m.entries ∧ p a = false := by
  simp [eraseIf]

theorem mem_erase {m : MbrList} {k : ThumbPrint} {a : ThumbPrint × Bytes} :
    a ∈ (m.erase k).entries ↔ a ∈ m.entries ∧ a.1 ≠ k := by
  simp [erase, mem_eraseIf]

theorem size_insert_le (m : MbrList) (k : ThumbPrint) (x : Bytes) :
    (m.insert k x).size ≤ m.size + 1 := length_insertAux_le k x m.entries

theorem size_insert (m : MbrList) (k : ThumbPrint) (x : Bytes) (h : ∀ y, (k, y) ∉ m.entries) :
    (m.insert k x).size = m.size + 1 := length_insertAux k x m.entries h

theorem size_eraseIf_le (m : MbrList) (p : ThumbPrint × Bytes → Bool) :
    (m.eraseIf p).size ≤ m.size := List.length_filter_le _ _

theorem keys_nodup (m : MbrList) : (m.entries.map Prod.fst).Nodup :=
  List.pairwise_map.mpr (m.sorted.imp ne_of_lt)

section Map

/-- The key the table holds under a thumbprint. -/
def lookup (m : MbrList) (k : ThumbPrint) : Option Bytes := m.entries.lookup k

theorem lookup_cons (e : ThumbPrint × Bytes) (l : List (ThumbPrint × Bytes)) (k : ThumbPrint) :
    (e :: l).lookup k = if k = e.1 then some e.2 else l.lookup k := by
  obtain ⟨k', b⟩ := e
  by_cases h : k = k'
  · subst h; simp
  · simp only [List.lookup, beq_false_of_ne h, if_neg h]

theorem lookup_eq_none_of_lt {l : List (ThumbPrint × Bytes)} {k : ThumbPrint}
    (h : ∀ b ∈ l, k < b.1) : l.lookup k = none :=
  List.lookup_eq_none_iff.mpr fun b hb => bne_iff_ne.mpr (h b hb).ne

theorem lookup_insertAux (k : ThumbPrint) (x : Bytes) (k' : ThumbPrint) :
    ∀ l : List (ThumbPrint × Bytes),
      (insertAux k x l).lookup k' = if k' = k then some x else l.lookup k'
  | [] => by simp [insertAux, lookup_cons]
  | e :: rest => by
    simp only [insertAux]
    by_cases h₁ : k < e.1
    · rw [if_pos h₁, lookup_cons]
    rw [if_neg h₁]
    by_cases h₂ : k = e.1
    · rw [if_pos h₂, lookup_cons, lookup_cons]
      by_cases hk : k' = k <;> simp [hk, ← h₂]
    · rw [if_neg h₂, lookup_cons, lookup_insertAux k x k' rest, lookup_cons]
      by_cases he : k' = e.1
      · rw [if_pos he, if_neg (by rintro rfl; exact h₂ he), if_pos he]
      · rw [if_neg he, if_neg he]

theorem lookup_filter (p : ThumbPrint × Bytes → Bool) (k : ThumbPrint) :
    ∀ {l : List (ThumbPrint × Bytes)}, l.Pairwise (fun a b => a.1 < b.1) →
      (l.filter fun e => !p e).lookup k = (l.lookup k).filter fun y => !p (k, y)
  | [], _ => rfl
  | e :: rest, h => by
    rw [List.pairwise_cons] at h
    rw [List.filter_cons, lookup_cons]
    by_cases hk : k = e.1
    · subst hk
      rw [if_pos rfl, Option.filter_some]
      cases hp : p e
      · simp [hp, lookup_cons]
      · exact lookup_eq_none_of_lt fun b hb => h.1 b (List.mem_of_mem_filter hb)
    · rw [if_neg hk, ← lookup_filter p k h.2]
      split <;> simp only [lookup_cons, if_neg hk]

theorem eq_of_lookup_eq : ∀ {l l' : List (ThumbPrint × Bytes)},
    l.Pairwise (fun a b => a.1 < b.1) → l'.Pairwise (fun a b => a.1 < b.1) →
      (∀ k, l.lookup k = l'.lookup k) → l = l'
  | [], [], _, _, _ => rfl
  | [], e :: _, _, _, h => by simpa [lookup_cons] using (h e.1).symm
  | e :: _, [], _, _, h => by simpa [lookup_cons] using h e.1
  | e :: r, e' :: r', hs, hs', h => by
    rw [List.pairwise_cons] at hs hs'
    have hkey : e.1 = e'.1 := by
      rcases lt_trichotomy e.1 e'.1 with hlt | heq | hgt
      · have := h e.1
        rw [lookup_cons, if_pos rfl, lookup_cons, if_neg hlt.ne,
          lookup_eq_none_of_lt fun b hb => hlt.trans (hs'.1 b hb)] at this
        cases this
      · exact heq
      · have := h e'.1
        rw [lookup_cons, if_neg hgt.ne, lookup_cons, if_pos rfl,
          lookup_eq_none_of_lt fun b hb => hgt.trans (hs.1 b hb)] at this
        cases this
    have hval : e.2 = e'.2 := by
      have := h e.1
      rwa [lookup_cons, if_pos rfl, lookup_cons, if_pos hkey, Option.some_inj] at this
    have hrest : r = r' := eq_of_lookup_eq hs.2 hs'.2 fun k => by
      by_cases hk : k = e.1
      · rw [lookup_eq_none_of_lt fun b hb => hk ▸ hs.1 b hb,
          lookup_eq_none_of_lt fun b hb => hk ▸ hkey ▸ hs'.1 b hb]
      · have := h k
        rwa [lookup_cons, if_neg hk, lookup_cons, if_neg (hkey ▸ hk)] at this
    rw [Prod.ext hkey hval, hrest]

theorem lookup_insert (m : MbrList) (k : ThumbPrint) (x : Bytes) :
    (m.insert k x).lookup = Function.update m.lookup k (some x) :=
  funext fun k' => by simp only [lookup, insert, lookup_insertAux, Function.update_apply]

theorem lookup_eraseIf (m : MbrList) (p : ThumbPrint × Bytes → Bool) (k : ThumbPrint) :
    (m.eraseIf p).lookup k = (m.lookup k).filter fun y => !p (k, y) :=
  lookup_filter p k m.sorted

theorem lookup_erase (m : MbrList) (k : ThumbPrint) :
    (m.erase k).lookup = Function.update m.lookup k none := by
  funext k'
  rw [erase, lookup_eraseIf, Function.update_apply]
  by_cases hk : k' = k <;> cases m.lookup k' <;> simp [hk, Option.filter_some]

theorem ext_lookup {m m' : MbrList} (h : m.lookup = m'.lookup) : m = m' := by
  obtain ⟨l, hl⟩ := m
  obtain ⟨l', hl'⟩ := m'
  cases eq_of_lookup_eq hl hl' (congrFun h)
  rfl

/-- The table is the map it stands for: insert-or-replace (`m_mbrList[tp] = x`), `erase` and
`erase_if` act on that map as an update, a removal and a filter, and two tables that hold the
same key under every thumbprint are the same table. -/
theorem mbrList_refines_map (m m' : MbrList) (k : ThumbPrint) (x : Bytes)
    (p : ThumbPrint × Bytes → Bool) :
    (m.insert k x).lookup = Function.update m.lookup k (some x) ∧
      (m.erase k).lookup = Function.update m.lookup k none ∧
      (∀ k', (m.eraseIf p).lookup k' = (m.lookup k').filter fun y => !p (k', y)) ∧
      (m.lookup = m'.lookup → m = m') :=
  ⟨lookup_insert m k x, lookup_erase m k, lookup_eraseIf m p, ext_lookup⟩

end Map

end MbrList

end SgKeyDist.Members
