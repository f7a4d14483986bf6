import Keldra.Foundation.Checks

/-!
# Ordered finite maps

A finite map over a linearly ordered key type, kept as its list of entries in
strictly ascending key order.  Iteration, ranges and counts are then ordinary
list functions on `entries`, and two maps with the same lookups are equal.

An ordered set is a map to `Unit`.
-/

namespace Keldra.Foundation

open List

universe u v w

section

variable {κ : Type u} [LinearOrder κ] {ν : Type v}

/-- Entry lists in strictly ascending key order. -/
def Ascending (entries : List (κ × ν)) : Prop :=
  entries.Pairwise (fun a b => a.1 < b.1)

instance (entries : List (κ × ν)) : Decidable (Ascending entries) :=
  inferInstanceAs (Decidable (List.Pairwise _ _))

/-- First value stored under a key. -/
def lookupEntry (k : κ) : List (κ × ν) → Option ν
  | [] => none
  | e :: rest => if k = e.1 then some e.2 else lookupEntry k rest

/-- Store a value, replacing the value of an equal key. -/
def insertEntry (k : κ) (v : ν) : List (κ × ν) → List (κ × ν)
  | [] => [(k, v)]
  | e :: rest =>
    if k < e.1 then
      (k, v) :: e :: rest
    else if k = e.1 then (k, v) :: rest else e :: insertEntry k v rest

/-- In an ascending list a lookup finds exactly the stored entry. -/
theorem lookupEntry_eq_some_iff {entries : List (κ × ν)}
    (hs : Ascending entries) (k : κ) (v : ν) :
    lookupEntry k entries = some v ↔ (k, v) ∈ entries := by
  induction entries with
  | nil => simp [lookupEntry]
  | cons e rest ih =>
    obtain ⟨hlt, hrest⟩ := pairwise_cons.mp hs
    by_cases hk : k = e.1
    · have hnot : (k, v) ∉ rest := by
        intro hmem
        exact absurd (hlt _ hmem) (by simp [hk])
      simp only [lookupEntry, hk, if_true, mem_cons]
      constructor
      · intro h
        left
        rw [← Option.some.inj h]
      rintro (h | h)
      · rw [← h]
      · exact absurd (hk ▸ h) hnot
    · have hne : (k, v) ≠ e := by
        intro h
        exact hk (congrArg Prod.fst h)
      simp [lookupEntry, hk, hne, ih hrest]

/-- Insertion adds the new entry and drops only an entry with the same key. -/
theorem mem_insertEntry {entries : List (κ × ν)}
    (hs : Ascending entries) (k : κ) (v : ν) (e : κ × ν) :
    e ∈ insertEntry k v entries ↔ e = (k, v) ∨ (e ∈ entries ∧ e.1 ≠ k) := by
  induction entries with
  | nil => simp [insertEntry]
  | cons d rest ih =>
    obtain ⟨hlt, hrest⟩ := pairwise_cons.mp hs
    unfold insertEntry
    by_cases hk : k < d.1
    · have hkeep : ∀ e' ∈ d :: rest, e'.1 ≠ k := by
        intro _ he'
        rcases mem_cons.mp he' with rfl | he'
        · exact hk.ne'
        · exact (hk.trans (hlt _ he')).ne'
      rw [if_pos hk, mem_cons]
      constructor
      · rintro (h | h)
        · exact .inl h
        · exact .inr ⟨h, hkeep e h⟩
      rintro (h | h)
      · exact .inl h
      · exact .inr h.1
    rw [if_neg hk]
    by_cases he : k = d.1
    · have hkeep : ∀ e' ∈ rest, e'.1 ≠ k := by
        intro _ he'
        rw [he]
        exact (hlt _ he').ne'
      rw [if_pos he, mem_cons]
      constructor
      · rintro (h | h)
        · exact .inl h
        · exact .inr ⟨mem_cons_of_mem _ h, hkeep e h⟩
      rintro (h | ⟨h, hne⟩)
      · exact .inl h
      rcases mem_cons.mp h with rfl | h
      · exact absurd he.symm hne
      · exact .inr h
    · rw [if_neg he, mem_cons, ih hrest]
      constructor
      · rintro (rfl | h | h)
        · exact .inr ⟨by simp, fun h => he h.symm⟩
        · exact .inl h
        · exact .inr ⟨mem_cons_of_mem _ h.1, h.2⟩
      rintro (h | ⟨h, hne⟩)
      · exact .inr (.inl h)
      rcases mem_cons.mp h with rfl | h
      · exact .inl rfl
      · exact .inr (.inr ⟨h, hne⟩)

theorem ascending_insertEntry {entries : List (κ × ν)}
    (hs : Ascending entries) (k : κ) (v : ν) :
    Ascending (insertEntry k v entries) := by
  induction entries with
  | nil => simp [insertEntry, Ascending]
  | cons d _ ih =>
    obtain ⟨hlt, hrest⟩ := pairwise_cons.mp hs
    unfold insertEntry
    by_cases hk : k < d.1
    · rw [if_pos hk]
      refine pairwise_cons.mpr ⟨?_, hs⟩
      intro e he
      rcases mem_cons.mp he with rfl | he
      · exact hk
      · exact hk.trans (hlt _ he)
    rw [if_neg hk]
    by_cases he : k = d.1
    · rw [if_pos he]
      refine pairwise_cons.mpr ⟨?_, hrest⟩
      intro e hmem
      rw [he]
      exact hlt _ hmem
    rw [if_neg he]
    refine pairwise_cons.mpr ⟨?_, ih hrest⟩
    intro e hmem
    rcases (mem_insertEntry hrest k v e).mp hmem with rfl | ⟨hmem, _⟩
    · exact lt_of_le_of_ne (not_lt.mp hk) (Ne.symm he)
    · exact hlt _ hmem

/-- Inserting above every stored key appends. -/
theorem insertEntry_eq_append {k : κ}
    {entries : List (κ × ν)} (v : ν) (h : ∀ e ∈ entries, e.1 < k) :
    insertEntry k v entries = entries ++ [(k, v)] := by
  induction entries with
  | nil => rfl
  | cons d _ ih =>
    have hd : d.1 < k := h d (by simp)
    have hrest := ih (fun e he => h e (mem_cons_of_mem _ he))
    simp [insertEntry, hd.not_gt, hd.ne', hrest]

end

/-- A finite map in strictly ascending key order. -/
structure OrdMap (κ : Type u) (ν : Type v) [LinearOrder κ] where
  entries : List (κ × ν)
  ascending : Ascending entries

namespace OrdMap

variable {κ : Type u} [LinearOrder κ] {ν : Type v}

instance [DecidableEq ν] : DecidableEq (OrdMap κ ν) :=
  fun a b =>
    decidable_of_iff (a.entries = b.entries) (by
      cases a
      cases b
      simp)

def empty : OrdMap κ ν := ⟨[], List.Pairwise.nil⟩

instance : Inhabited (OrdMap κ ν) := ⟨empty⟩

def get? (m : OrdMap κ ν) (k : κ) : Option ν :=
  lookupEntry k m.entries

def contains (m : OrdMap κ ν) (k : κ) : Bool :=
  (m.get? k).isSome

def insert (m : OrdMap κ ν) (k : κ) (v : ν) : OrdMap κ ν :=
  ⟨insertEntry k v m.entries, ascending_insertEntry m.ascending k v⟩

/-- The entries that satisfy a predicate. -/
def filter (m : OrdMap κ ν) (p : κ × ν → Bool) : OrdMap κ ν :=
  ⟨m.entries.filter p, m.ascending.filter p⟩

def erase (m : OrdMap κ ν) (k : κ) : OrdMap κ ν :=
  m.filter (fun e => decide (e.1 ≠ k))

/-- The same keys with mapped values. -/
def mapValues {μ : Type v} (m : OrdMap κ ν) (f : ν → μ) : OrdMap κ μ :=
  ⟨m.entries.map (fun e : κ × ν => (e.1, f e.2)), List.pairwise_map.mpr m.ascending⟩

def keys (m : OrdMap κ ν) : List κ :=
  m.entries.map Prod.fst

def values (m : OrdMap κ ν) : List ν :=
  m.entries.map Prod.snd

def size (m : OrdMap κ ν) : Nat :=
  m.entries.length

def isEmpty (m : OrdMap κ ν) : Bool :=
  m.entries.isEmpty

/-- Insert a list of entries from left to right. -/
def ofList (entries : List (κ × ν)) : OrdMap κ ν :=
  entries.foldl (fun m e => m.insert e.1 e.2) empty

theorem get?_eq_some_iff (m : OrdMap κ ν) (k : κ) (v : ν) :
    m.get? k = some v ↔ (k, v) ∈ m.entries :=
  lookupEntry_eq_some_iff m.ascending k v

theorem get?_of_mem {e : κ × ν} {m : OrdMap κ ν} (h : e ∈ m.entries) : m.get? e.1 = some e.2 :=
  (m.get?_eq_some_iff e.1 e.2).mpr h

@[simp] theorem get?_empty (k : κ) : (empty : OrdMap κ ν).get? k = none :=
  rfl

theorem get?_insert (m : OrdMap κ ν) (k k' : κ) (v : ν) : (m.insert k v).get? k' =
    if k' = k then some v else m.get? k' := by
  apply Option.ext
  intro w
  rw [get?_eq_some_iff]
  have hmem := mem_insertEntry m.ascending k v (k', w)
  simp only [insert, hmem, Prod.mk.injEq]
  by_cases hk : k' = k
  · simp [hk, eq_comm]
  · simp [hk, get?_eq_some_iff]

@[simp] theorem get?_insert_self (m : OrdMap κ ν) (k : κ) (v : ν) :
    (m.insert k v).get? k = some v := by
  simp [get?_insert]

theorem get?_insert_of_ne {k' k : κ}
    (m : OrdMap κ ν) (v : ν) (h : k' ≠ k) :
    (m.insert k v).get? k' = m.get? k' := by
  simp [get?_insert, h]

theorem get?_filter (m : OrdMap κ ν) (p : κ × ν → Bool) (k : κ) :
    (m.filter p).get? k = (m.get? k).filter (fun v => p (k, v)) := by
  apply Option.ext
  intro w
  rw [get?_eq_some_iff]
  simp [filter, get?_eq_some_iff]

theorem get?_erase (m : OrdMap κ ν) (k k' : κ) : (m.erase k).get? k' =
    if k' = k then none else m.get? k' := by
  rw [erase, get?_filter]
  by_cases h : k' = k
  · simp [h]
  · cases hm : m.get? k' <;> simp [h]

theorem get?_mapValues {μ : Type v} (m : OrdMap κ ν) (f : ν → μ) (k : κ) :
    (m.mapValues f).get? k = (m.get? k).map f := by
  apply Option.ext
  intro w
  rw [get?_eq_some_iff, Option.map_eq_some_iff]
  simp only [mapValues, mem_map, Prod.mk.injEq, get?_eq_some_iff]
  constructor
  · rintro ⟨⟨_, v⟩, hmem, rfl, hw⟩
    exact ⟨v, hmem, hw⟩
  rintro ⟨v, hmem, hw⟩
  exact ⟨(k, v), hmem, rfl, hw⟩

/-- Maps with the same lookups are equal. -/
theorem ext_get? {a b : OrdMap κ ν} (h : ∀ k, a.get? k = b.get? k) : a = b := by
  have hmem : ∀ e, e ∈ a.entries ↔ e ∈ b.entries := by
    intro e
    rw [← get?_eq_some_iff a e.1 e.2, ← get?_eq_some_iff b e.1 e.2, h]
  have hirr : ∀ (x y : κ × ν), x.1 < y.1 → y.1 < x.1 → x = y :=
    fun _ _ h₁ h₂ => absurd (h₁.trans h₂) (lt_irrefl _)
  have hnodup : ∀ m : OrdMap κ ν, m.entries.Nodup := by
    intro m
    exact m.ascending.imp (fun hlt heq => by simp [heq] at hlt)
  have hperm : a.entries.Perm b.entries := (perm_ext_iff_of_nodup (hnodup a) (hnodup b)).mpr hmem
  have heq : a.entries = b.entries :=
    hperm.eq_of_pairwise (fun x y _ _ => hirr x y) a.ascending b.ascending
  cases a
  cases b
  simpa using heq

theorem mem_keys_iff (m : OrdMap κ ν) (k : κ) : k ∈ m.keys ↔ ∃ v, m.get? k = some v := by
  simp [keys, get?_eq_some_iff]

theorem contains_iff (m : OrdMap κ ν) (k : κ) : m.contains k = true ↔ ∃ v, m.get? k = some v := by
  simp [contains, Option.isSome_iff_exists]

theorem isEmpty_iff (m : OrdMap κ ν) : m.isEmpty = true ↔ ∀ k, m.get? k = none := by
  constructor
  · intro h k
    have : m.entries = [] := List.isEmpty_iff.mp h
    simp [get?, this, lookupEntry]
  intro h
  refine List.isEmpty_iff.mpr (eq_nil_iff_forall_not_mem.mpr ?_)
  intro e he
  have := get?_of_mem he
  simp [h] at this

theorem exists_contains {m : OrdMap κ ν} (h : m.isEmpty = false) : ∃ k, m.contains k = true := by
  by_contra hnone
  push Not at hnone
  have hempty : m.isEmpty = true := by
    rw [isEmpty_iff]
    intro k
    simpa [contains] using hnone k
  rw [h] at hempty
  cases hempty

theorem nodup_keys (m : OrdMap κ ν) : m.keys.Nodup :=
  List.Pairwise.map Prod.fst (fun _ _ h => h.ne) m.ascending

/-- A sum over the entries splits off the entry of a stored key. -/
theorem sum_map_erase {k : κ} {v : ν}
    (m : OrdMap κ ν) (f : κ × ν → Nat) (h : m.get? k = some v) :
    (m.entries.map f).sum = f (k, v) + ((m.erase k).entries.map f).sum := by
  obtain ⟨entries, hs⟩ := m
  have hmem : (k, v) ∈ entries := (get?_eq_some_iff ⟨entries, hs⟩ k v).mp h
  change (entries.map f).sum = f (k, v) + ((entries.filter (fun e => decide (e.1 ≠ k))).map f).sum
  clear h
  induction entries with
  | nil => cases hmem
  | cons e rest ih =>
    obtain ⟨hlt, hrest⟩ := pairwise_cons.mp hs
    rcases mem_cons.mp hmem with rfl | hmem
    · have hkeep : rest.filter (fun e => decide (e.1 ≠ k)) = rest := by
        refine filter_eq_self.mpr ?_
        intro d hd
        simpa using (hlt d hd).ne'
      rw [filter_cons_of_neg (by simp), hkeep]
      simp
    have hne : e.1 ≠ k := (hlt _ hmem).ne
    rw [filter_cons_of_pos (by simpa using hne)]
    simp only [map_cons, sum_cons]
    rw [ih hrest hmem]
    omega

/-- A sum over the entries after storing a value. -/
theorem sum_map_insert (m : OrdMap κ ν) (f : κ × ν → Nat) (k : κ) (v : ν) :
    ((m.insert k v).entries.map f).sum = f (k, v) + ((m.erase k).entries.map f).sum := by
  have herase : (m.insert k v).erase k = m.erase k := by
    apply ext_get?
    intro k'
    rw [get?_erase, get?_erase, get?_insert]
    by_cases h : k' = k <;> simp [h]
  rw [sum_map_erase _ f (m.get?_insert_self k v), herase]

theorem erase_eq_self {k : κ} {m : OrdMap κ ν} (h : m.get? k = none) : m.erase k = m := by
  apply ext_get?
  intro k'
  rw [get?_erase]
  by_cases hk : k' = k
  · simp [hk, h]
  · simp [hk]

/-- Inserting above every stored key appends one entry. -/
theorem insert_entries_of_lt (m : OrdMap κ ν) {k : κ} (v : ν) (h : ∀ e ∈ m.entries, e.1 < k) :
    (m.insert k v).entries = m.entries ++ [(k, v)] :=
  insertEntry_eq_append v h

/-- Erasing a newly stored key restores the map. -/
theorem erase_insert {k : κ} {v : ν}
    {m : OrdMap κ ν} (h : m.get? k = none) : (m.insert k v).erase k = m := by
  apply ext_get?
  intro k'
  rw [get?_erase, get?_insert]
  by_cases hk : k' = k
  · simp [hk, h]
  · simp [hk]

theorem contains_insert (m : OrdMap κ ν) (k k' : κ) (v : ν) :
    (m.insert k v).contains k' = true ↔ k' = k ∨ m.contains k' = true := by
  unfold contains
  rw [get?_insert]
  by_cases h : k' = k <;> simp [h]

/-- The keys of a map built from a list are the keys of the list. -/
theorem contains_ofList (entries : List (κ × ν)) (k : κ) :
    (ofList entries).contains k = true ↔ ∃ e ∈ entries, e.1 = k := by
  have hfold : ∀ (entries : List (κ × ν)) (m : OrdMap κ ν), (entries.foldl (fun m e => m.insert e.1
    e.2) m).contains k = true ↔ (∃ e ∈ entries, e.1 = k) ∨ m.contains k = true := by
    intro entries
    induction entries with
    | nil => simp
    | cons e _ ih =>
      intro m
      rw [foldl_cons, ih, contains_insert]
      constructor
      · rintro (⟨e', he', hk⟩ | hk | hm)
        · exact .inl ⟨e', mem_cons_of_mem _ he', hk⟩
        · exact .inl ⟨e, by simp, hk.symm⟩
        · exact .inr hm
      rintro (⟨e', he', hk⟩ | hm)
      · rcases mem_cons.mp he' with rfl | he'
        · exact .inr (.inl hk.symm)
        · exact .inl ⟨e', he', hk⟩
      · exact .inr (.inr hm)
  rw [ofList, hfold]
  simp [contains, empty, get?, lookupEntry]

end OrdMap

section

variable {κ ν : Type u} [LinearOrder κ] {ε : Type v} {α : Type w}

/-- Compile the elements from left to right, each stored under its key; a key
that is already taken fails. -/
def collectUnique (key : α → κ) (compile : α → Except ε ν) (duplicate : α → ε) :
    List α → OrdMap κ ν → Except ε (OrdMap κ ν)
  | [], m => .ok m
  | a :: rest, m => do
    let v ← compile a
    rejectIf (m.contains (key a) = true) (duplicate a)
    collectUnique key compile duplicate rest (m.insert (key a) v)

/-- A successful collection stores exactly the compiled elements. -/
theorem get?_collectUnique
    (h : collectUnique key compile duplicate elements m = .ok m') (k : κ) (v : ν) :
    m'.get? k = some v ↔ m.get? k = some v ∨ ∃ a ∈ elements, key a = k ∧ compile a = .ok v := by
  induction elements generalizing m with
  | nil =>
    cases h
    simp
  | cons a _ ih =>
    simp only [collectUnique, bind_eq_ok, rejectIf_eq_ok, exists_const] at h
    obtain ⟨_, hfirst, hfree, hrest⟩ := h
    have hnone : m.get? (key a) = none := by simpa [OrdMap.contains] using hfree
    rw [ih hrest, OrdMap.get?_insert]
    by_cases hk : k = key a
    · subst hk
      simp [hnone, hfirst]
    have hk' : key a ≠ k := fun he => hk he.symm
    simp [hk, hk']

theorem collectUnique_compiles {key : α → κ}
    (h : collectUnique key compile duplicate elements m = .ok m') (ha : a ∈ elements) :
    ∃ v, compile a = .ok v := by
  induction elements generalizing m with
  | nil => cases ha
  | cons _ _ ih =>
    simp only [collectUnique, bind_eq_ok, rejectIf_eq_ok, exists_const] at h
    obtain ⟨v, hv, _, hrest⟩ := h
    rcases mem_cons.mp ha with rfl | ha
    · exact ⟨v, hv⟩
    · exact ih hrest ha

/-- A collection into the empty map is read back through the elements. -/
theorem get?_collectUnique_empty
    (h : collectUnique key compile duplicate elements OrdMap.empty = .ok m) (k : κ) (v : ν) :
    m.get? k = some v ↔ ∃ a ∈ elements, key a = k ∧ compile a = .ok v := by
  rw [get?_collectUnique h]
  simp

end

section

variable {κ : Type u} [LinearOrder κ]

/-- An ordered finite set. -/
abbrev OrdSet (κ : Type u) [LinearOrder κ] : Type u :=
  OrdMap κ Unit

namespace OrdSet

/-- The set of the elements of a list. -/
def ofKeys (elements : List κ) : OrdSet κ :=
  OrdMap.ofList (elements.map (fun k => (k, ())))

theorem contains_ofKeys (elements : List κ) (k : κ) :
    (ofKeys elements).contains k = true ↔ k ∈ elements := by
  simp [ofKeys, OrdMap.contains_ofList]

theorem contains_iff_mem_keys (a : OrdSet κ) (k : κ) : a.contains k = true ↔ k ∈ a.keys := by
  rw [OrdMap.contains_iff, OrdMap.mem_keys_iff]

/-- Sets with the same elements are equal. -/
theorem ext_contains {a b : OrdSet κ} (h : ∀ k, a.contains k = true ↔ b.contains k = true) :
    a = b := by
  apply OrdMap.ext_get?
  intro k
  have hk := h k
  unfold OrdMap.contains at hk
  cases ha : a.get? k <;> cases hb : b.get? k <;> simp_all

end OrdSet

end

end Keldra.Foundation
