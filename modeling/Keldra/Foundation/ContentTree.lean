import Keldra.Foundation.Bytes

/-!
# Content-addressed pages and the trees they form

A content store keeps byte strings under their digests.  Storing more content
never changes what an earlier digest loads, and without collisions every stored
string is loaded under its own digest.

A page tree is a set of pages that name each other by such digests: a leaf page
lists entries, a branch page lists summaries of child pages.  `Holds` reads the
tree under a summary as the list of entries at its leaves, in order; its first
argument bounds the depth and so the recursion of every walk over the tree.
-/

namespace Keldra.Foundation

section

variable {δ : Type} [DecidableEq δ] (digest : Bytes → δ) {stored : List Bytes} {content : Bytes}

/-- The content stored under a digest. -/
def loadContent (stored : List Bytes) (hash : δ) : Option Bytes :=
  stored.find? fun content => digest content = hash

/-- No two of the stored strings share a digest. -/
def CollisionFree (stored : List Bytes) : Prop :=
  ∀ a ∈ stored, ∀ b ∈ stored, digest a = digest b → a = b

variable {digest}

omit [DecidableEq δ] in
theorem CollisionFree.of_append {more : List Bytes}
    (h : CollisionFree digest (stored ++ more)) :
    CollisionFree digest stored := by
  intro a ha b hb
  exact h a (List.mem_append_left _ ha) b (List.mem_append_left _ hb)

/-- Loaded content has the digest it was loaded under. -/
theorem loadContent_eq_some {hash : δ} (h : loadContent digest stored hash = some content) :
    content ∈ stored ∧ digest content = hash := by
  refine ⟨List.mem_of_find?_eq_some h, ?_⟩
  simpa using List.find?_some h

/-- Storing more content keeps what was loaded before. -/
theorem loadContent_append
    {hash : δ} (more : List Bytes) (h : loadContent digest stored hash = some content) :
    loadContent digest (stored ++ more) hash = some content := by
  unfold loadContent at h ⊢
  rw [List.find?_append, h]
  rfl

theorem loadContent_of_mem (hfree : CollisionFree digest stored) (h : content ∈ stored) :
    loadContent digest stored (digest content) = some content := by
  cases hload : loadContent digest stored (digest content) with
  | none =>
    have hnone := List.find?_eq_none.mp hload content h
    simp at hnone
  | some other =>
    obtain ⟨hmem, hdigest⟩ := loadContent_eq_some hload
    rw [hfree other hmem content h hdigest]

end

section

variable {ρ κ : Type} {depth depth' : Nat}

/-- Every element on the left is related to one on the right. -/
theorem forall₂_exists_right
    (h : List.Forall₂ related left right) (ha : a ∈ left) : ∃ b ∈ right, related a b := by
  induction h with
  | nil => simp at ha
  | @cons a' b' left right hhead _ ih =>
    rcases List.mem_cons.mp ha with rfl | ha
    · exact ⟨b', by simp, hhead⟩
    obtain ⟨b, hb, hrelated⟩ := ih ha
    exact ⟨b, List.mem_cons_of_mem _ hb, hrelated⟩

/-- One page of a tree: its entries, or the summaries of its child pages. -/
inductive Page (ρ κ : Type) where
  | leaf (entries : List ρ)
  | branch (children : List κ)
deriving DecidableEq, Repr

/-- Number of entries or children listed on a page. -/
def Page.size : Page ρ κ → Nat
  | .leaf entries => entries.length
  | .branch children => children.length

/-- The pages under a summary hold exactly these entries, in order. -/
def Holds (stored : κ → Page ρ κ → Prop) : Nat → κ → List ρ → Prop
  | 0, _, _ => False
  | depth + 1, child, entries =>
    stored child (.leaf entries) ∨ ∃ children parts, stored child (.branch children) ∧
      List.Forall₂ (Holds stored depth) children parts ∧
      entries = parts.flatten

variable {stored stored' : κ → Page ρ κ → Prop}

theorem holds_leaf {child : κ} {entries : List ρ}
    (h : stored child (.leaf entries)) (depth : Nat) :
    Holds stored (depth + 1) child entries :=
  Or.inl h

theorem holds_branch {child : κ} {children : List κ} {parts : List (List ρ)}
    (h : stored child (.branch children))
    (hparts : List.Forall₂ (Holds stored depth) children parts) :
    Holds stored (depth + 1) child parts.flatten :=
  Or.inr ⟨children, parts, h, hparts, rfl⟩

/-- Induction over the pages of a tree. -/
theorem Holds.recurse {motive : κ → List ρ → Prop} {child : κ} {entries : List ρ}
    (hleaf : ∀ child entries, stored child (.leaf entries) → motive child entries)
    (hbranch : ∀ child children parts, stored child (.branch children) →
    List.Forall₂ motive children parts → motive child parts.flatten)
    (h : Holds stored depth child entries) :
    motive child entries := by
  induction depth generalizing child entries with
  | zero => exact h.elim
  | succ _ ih =>
    rcases h with h | ⟨children, parts, h, hparts, rfl⟩
    · exact hleaf child entries h
    · exact hbranch child children parts h (hparts.imp fun _ _ => ih)

theorem Holds.deeper {child : κ} {entries : List ρ}
    (h : Holds stored depth child entries) (hle : depth ≤ depth') :
    Holds stored depth' child entries := by
  induction depth generalizing depth' child entries with
  | zero => exact h.elim
  | succ _ ih =>
    cases depth' with
    | zero => omega
    | succ =>
      rcases h with h | ⟨children, parts, h, hparts, rfl⟩
      · exact .inl h
      refine .inr ⟨children, parts, h, hparts.imp ?_, rfl⟩
      intro _ _ h'
      exact ih h' (by omega)

/-- Trees survive in every store that keeps their pages. -/
theorem Holds.mono {child : κ} {entries : List ρ}
    (hstored : ∀ child page, stored child page → stored' child page)
    (h : Holds stored depth child entries) :
    Holds stored' depth child entries := by
  induction depth generalizing child entries with
  | zero => exact h.elim
  | succ _ ih =>
    rcases h with h | ⟨children, parts, h, hparts, rfl⟩
    · exact .inl (hstored _ _ h)
    · exact .inr ⟨children, parts, hstored _ _ h, hparts.imp fun _ _ => ih, rfl⟩

/-- A summary is the root of one list of entries only. -/
theorem Holds.unique {child : κ} {entries entries' : List ρ}
    (hstored : ∀ child page page', stored child page → stored child page' → page = page')
    (h : Holds stored depth child entries)
    (h' : Holds stored depth' child entries') : entries = entries' := by
  induction depth generalizing depth' child entries entries' with
  | zero => exact h.elim
  | succ _ ih =>
    cases depth' with
    | zero => exact h'.elim
    | succ =>
      rcases h with h | ⟨_, parts, h, hparts, rfl⟩
      · rcases h' with h' | ⟨_, _, h', -, -⟩
        · cases hstored _ _ _ h h'
          rfl
        · cases hstored _ _ _ h h'
      rcases h' with h' | ⟨_, parts', h', hparts', rfl⟩
      · cases hstored _ _ _ h h'
      cases hstored _ _ _ h h'
      have hequal : parts = parts' := by
        clear h h'
        induction hparts generalizing parts' with
        | nil =>
          cases hparts'
          rfl
        | cons hhead _ ihrest =>
          cases hparts' with
          | cons hhead' hrest' => rw [ih hhead hhead', ihrest _ hrest']
      rw [hequal]

end

end Keldra.Foundation
