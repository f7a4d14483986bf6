import Keldra.Index.QueryStream
import Mathlib.Data.List.Chain

/-!
# Pages of the query-run tree

Every page that passes its check is read back from its bytes.  `Describes`
relates a summary to the runs under it; it is what the page checks and the
summaries of parents are computed from, and it holds of every stored page.
-/

namespace Keldra.Index

open Foundation List

variable {page : QueryRunPage}

theorem reads_decodeReference (r : QueryRunReference) :
    Reads decodeReference (putReference r) r := by
  refine (reads_readDigest _ r.hash).bind ?_
  refine (reads_readU64 _ r.encodedBytes).bind ?_
  refine (reads_readU64 _ r.sequence).bind ?_
  refine (reads_readByte _ r.level).bind ?_
  refine (reads_readU64 _ r.sourceStartOffset).bind ?_
  refine (reads_readU64 _ r.nextOffset).bind ?_
  exact (reads_readU64 _ r.throughAtomicPosition).last _

theorem reads_decodeChild (c : QueryRunChild) : Reads decodeChild (putChild c) c := by
  refine (reads_readDigest _ c.hash).bind ?_
  refine (reads_readU64 _ c.encodedBytes).bind ?_
  refine (reads_readU64 _ c.runCount).bind ?_
  refine (reads_readU64 _ c.firstSequence).bind ?_
  refine (reads_readU64 _ c.lastSequence).bind ?_
  refine (reads_readU64 _ c.sourceStartOffset).bind ?_
  refine (reads_readU64 _ c.nextOffset).bind ?_
  exact (reads_readU64 _ c.throughAtomicPosition).last _

/-- The header of a page, and then its entries. -/
theorem reads_decodePageBytes {kind : UInt8} {entries : Bytes} {count : Nat} (hcount : count ≠ 0)
    (hfanout : count ≤ queryRunPageFanout) (h : Reads (decodeEntries kind count) entries page) :
    Reads decodePageBytes (queryRunPageMagic ++ (putU16 queryRunPageFormat ++
    ([kind] ++ (putU16 (UInt16.ofNat count) ++ entries)))) page := by
  have hfits : (UInt16.ofNat count).toNat = count := by
    unfold queryRunPageFanout at hfanout
    rw [UInt16.toNat_ofNat']
    omega
  have hpositive : UInt16.ofNat count ≠ 0 := by
    intro hzero
    have hnat := congrArg UInt16.toNat hzero
    rw [hfits] at hnat
    exact hcount hnat
  refine (reads_takeBytes _ (by decide)).bind ?_
  refine reads_refuseIf_bind (by simp) ?_
  refine (reads_readU16 _ _).bind ?_
  refine reads_refuseIf_bind (by simp) ?_
  refine (reads_readByte _ kind).bind ?_
  refine (reads_readU16 _ _).bind ?_
  refine reads_refuseIf_bind ?_ ?_
  · simp only [hpositive, false_or]
    omega
  rw [hfits]
  exact h

theorem reads_pageBytes (hsize : page.size ≠ 0) (hfanout : page.size ≤ queryRunPageFanout) :
    Reads decodePageBytes (pageBytes page) page := by
  cases page with
  | leaf runs =>
    refine reads_decodePageBytes hsize hfanout ?_
    exact (reads_decodeMany reads_decodeReference runs).map Page.leaf
  | branch children =>
    refine reads_decodePageBytes hsize hfanout ?_
    exact (reads_decodeMany reads_decodeChild children).map Page.branch

variable {r : QueryRunReference} {runs : List QueryRunReference} {children : List QueryRunChild}

/-- A reference that names stored bytes and covers part of the source. -/
structure QueryRunReference.Valid (r : QueryRunReference) : Prop where
  hash_ne : r.hash ≠ 0
  encodedBytes_ne : r.encodedBytes ≠ 0
  sequence_ne : r.sequence ≠ 0
  covers : r.sourceStartOffset < r.nextOffset

theorem validateReference_eq_ok : validateReference r = .ok () ↔ r.Valid := by
  unfold validateReference
  rw [rejectIf_eq_ok]
  constructor
  · intro h
    simp only [not_or, not_le] at h
    exact ⟨h.1, h.2.1, h.2.2.1, h.2.2.2⟩
  rintro ⟨h1, h2, h3, h4⟩
  simp only [not_or, not_le]
  exact ⟨h1, h2, h3, h4⟩

/-- Runs listed oldest first, each continuing the one before it. -/
structure Tiled (runs : List QueryRunReference) : Prop where
  chain : runs.IsChain QueryRunReference.Precedes
  valid : ∀ r ∈ runs, r.Valid

theorem validatePage_leaf_eq_ok : validatePage (.leaf runs) = .ok () ↔
    runs ≠ [] ∧ runs.length ≤ queryRunPageFanout ∧ Tiled runs := by
  simp only [validatePage, ok_rules, not_or, not_lt, not_not, forM_eq_ok, validateReference_eq_ok]
  constructor
  · rintro ⟨⟨hne, hlength, hchain⟩, hvalid⟩
    exact ⟨hne, hlength, hchain, hvalid⟩
  rintro ⟨hne, hlength, hchain, hvalid⟩
  exact ⟨⟨hne, hlength, hchain⟩, hvalid⟩

theorem validatePage_branch_eq_ok : validatePage (.branch children) = .ok () ↔
    children ≠ [] ∧ children.length ≤ queryRunPageFanout ∧ children.IsChain QueryRunChild.Precedes ∧
    ∀ c ∈ children, ¬ c.Invalid := by
  simp only [validatePage, ok_rules, not_or, not_lt, not_not, not_exists, not_and, and_assoc]

theorem size_of_validatePage (h : validatePage page = .ok ()) :
    page.size ≠ 0 ∧ page.size ≤ queryRunPageFanout := by
  cases page with
  | leaf =>
    obtain ⟨hne, hlength, -⟩ := validatePage_leaf_eq_ok.mp h
    exact ⟨fun hzero => hne (length_eq_zero_iff.mp hzero), hlength⟩
  | branch =>
    obtain ⟨hne, hlength, -, -⟩ := validatePage_branch_eq_ok.mp h
    exact ⟨fun hzero => hne (length_eq_zero_iff.mp hzero), hlength⟩

/-- Every page that passes its check is read back from its bytes. -/
theorem decodeQueryRunPage_pageBytes (h : validatePage page = .ok ()) :
    decodeQueryRunPage (pageBytes page) = .ok page := by
  obtain ⟨hsize, hfanout⟩ := size_of_validatePage h
  have hread := reads_pageBytes hsize hfanout []
  rw [append_nil] at hread
  unfold decodeQueryRunPage
  simp only [ok_rules]
  exact ⟨_, hread, by simp, h, rfl⟩

theorem pageBytes_injective {page' : QueryRunPage}
    (h : validatePage page = .ok ()) (h' : validatePage page' = .ok ())
    (hbytes : pageBytes page = pageBytes page') : page = page' := by
  have hpage := decodeQueryRunPage_pageBytes h
  rw [hbytes, decodeQueryRunPage_pageBytes h', Except.ok.injEq] at hpage
  exact hpage.symm

theorem length_putReference (r : QueryRunReference) : (putReference r).length = 73 := by
  simp [putReference, putDigest, putU64]

theorem length_putChild (c : QueryRunChild) : (putChild c).length = 88 := by
  simp [putChild, putDigest, putU64]

/-- Pages within the fanout have a length, and it fits a word. -/
theorem length_pageBytes (h : page.size ≤ queryRunPageFanout) :
    0 < (pageBytes page).length ∧ (pageBytes page).length < 2 ^ 64 := by
  have hmagic : queryRunPageMagic.length = 8 := by decide
  cases page with
  | leaf | branch =>
    simp only [Page.size, queryRunPageFanout] at h
    simp only [pageBytes, length_append, hmagic, length_flatMap, length_putReference,
      length_putChild, map_const', sum_replicate, smul_eq_mul, putU16, length_bigEndian,
      length_singleton]
    omega

variable {parts : List (List QueryRunReference)}

section

theorem Tiled.of_append {older newer : List QueryRunReference}
    (h : Tiled (older ++ newer)) : Tiled older ∧ Tiled newer := by
  obtain ⟨hchain, hvalid⟩ := h
  obtain ⟨hleft, hright, -⟩ := isChain_append.mp hchain
  refine ⟨⟨hleft, ?_⟩, ⟨hright, ?_⟩⟩
  · intro r hr
    exact hvalid r (mem_append_left _ hr)
  intro r hr
  exact hvalid r (mem_append_right _ hr)

theorem tiled_of_mem_parts (h : Tiled parts.flatten) : ∀ part ∈ parts, Tiled part := by
  intro _ hpart
  obtain ⟨_, _, rfl⟩ := append_of_mem hpart
  rw [flatten_append, flatten_cons] at h
  exact h.of_append.2.of_append.1

/-- Along a tiling everything only grows. -/
theorem Tiled.head_le_last {first last : QueryRunReference}
    (h : Tiled runs) (hfirst : runs.head? = some first) (hlast : runs.getLast? = some last) :
    first.sequence ≤ last.sequence ∧ first.sourceStartOffset < last.nextOffset ∧
    first.throughAtomicPosition ≤ last.throughAtomicPosition ∧
    first.sequence.toNat + runs.length ≤ last.sequence.toNat + 1 := by
  induction runs generalizing first with
  | nil => simp at hfirst
  | cons r rest ih =>
    simp only [head?_cons, Option.some.injEq] at hfirst
    subst hfirst
    have hvalid : r.Valid := h.valid r (by simp)
    cases rest with
    | nil =>
      simp only [getLast?_singleton, Option.some.injEq] at hlast
      subst hlast
      exact ⟨le_refl _, hvalid.covers, le_refl _, by simp⟩
    | cons next more =>
      have hsplit : Tiled ([r] ++ next :: more) := h
      have htail : Tiled (next :: more) := hsplit.of_append.2
      obtain ⟨hseq, hoff, hat, hlen⟩ := ih htail rfl hlast
      obtain ⟨hlt, hjoin, hmono⟩ := (isChain_cons_cons.mp h.chain).1
      refine ⟨(hlt.trans_le hseq).le, ?_, hmono.trans hat, ?_⟩
      · rw [← hjoin] at hoff
        exact hvalid.covers.trans hoff
      rw [UInt64.lt_iff_toNat_lt] at hlt
      simp only [length_cons] at hlen ⊢
      omega

theorem Tiled.pairwise_sequence (h : Tiled runs) :
    runs.Pairwise fun older newer => older.sequence < newer.sequence := by
  have hchain : runs.IsChain fun older newer => older.sequence < newer.sequence :=
    h.chain.imp fun _ _ hprecedes => hprecedes.1
  exact isChain_iff_pairwise.mp hchain

theorem Tiled.tail {rest : List QueryRunReference}
    (h : Tiled (r :: rest)) : Tiled rest := by
  have hsplit : Tiled ([r] ++ rest) := h
  exact hsplit.of_append.2

/-- The intervals of a tiling lie one after the other. -/
theorem Tiled.pairwise_offsets (h : Tiled runs) :
    runs.Pairwise fun older newer => older.nextOffset ≤ newer.sourceStartOffset := by
  induction runs with
  | nil => exact List.Pairwise.nil
  | cons r rest ih =>
    have hrest := ih h.tail
    refine List.Pairwise.cons ?_ hrest
    intro later hlater
    cases rest with
    | nil => cases hlater
    | cons next =>
      obtain ⟨-, hjoin, -⟩ := (isChain_cons_cons.mp h.chain).1
      rcases mem_cons.mp hlater with rfl | hlater
      · exact hjoin.le
      have hnext : next.Valid := h.valid next (by simp)
      have hafter := (pairwise_cons.mp hrest).1 later hlater
      exact hjoin.le.trans (hnext.covers.le.trans hafter)

/-- A tiling leaves no gap between its ends. -/
theorem Tiled.covers {first last : QueryRunReference}
    (h : Tiled runs) (hfirst : runs.head? = some first)
    (hlast : runs.getLast? = some last) (offset : UInt64) :
    (∃ r ∈ runs, r.sourceStartOffset ≤ offset ∧ offset < r.nextOffset) ↔
    first.sourceStartOffset ≤ offset ∧ offset < last.nextOffset := by
  induction runs generalizing first with
  | nil => simp at hfirst
  | cons r rest ih =>
    simp only [head?_cons, Option.some.injEq] at hfirst
    subst hfirst
    cases rest with
    | nil =>
      simp only [getLast?_singleton, Option.some.injEq] at hlast
      subst hlast
      simp
    | cons =>
      obtain ⟨-, hjoin, -⟩ := (isChain_cons_cons.mp h.chain).1
      obtain ⟨-, hend, -, -⟩ := h.tail.head_le_last head?_cons hlast
      have hvalid : r.Valid := h.valid r (by simp)
      have htail := ih h.tail head?_cons hlast
      rw [← hjoin] at hend htail
      constructor
      · rintro ⟨r', hr', hlow, hhigh⟩
        rcases mem_cons.mp hr' with rfl | hr'
        · exact ⟨hlow, hhigh.trans hend⟩
        obtain ⟨hlow', hhigh'⟩ := htail.mp ⟨r', hr', hlow, hhigh⟩
        exact ⟨hvalid.covers.le.trans hlow', hhigh'⟩
      rintro ⟨hlow, hhigh⟩
      rcases lt_or_ge offset r.nextOffset with hcase | hcase
      · exact ⟨r, by simp, hlow, hcase⟩
      obtain ⟨r', hr', hin⟩ := htail.mpr ⟨hcase, hhigh⟩
      exact ⟨r', mem_cons_of_mem _ hr', hin⟩

theorem Tiled.pairwise_atomic (h : Tiled runs) : runs.Pairwise fun older newer =>
      older.throughAtomicPosition ≤ newer.throughAtomicPosition := by
  have hchain : runs.IsChain fun older newer =>
      older.throughAtomicPosition ≤ newer.throughAtomicPosition :=
    h.chain.imp fun _ _ hprecedes => hprecedes.2.2
  exact isChain_iff_pairwise.mp hchain

end

variable {child : QueryRunChild}

section

variable {hash : Digest}

/-- A summary says the truth about the runs under its page. -/
structure Summarizes (child : QueryRunChild) (runs : List QueryRunReference) : Prop where
  runCount : child.runCount.toNat = runs.length
  first : ∃ r, runs.head? = some r ∧ child.firstSequence = r.sequence ∧
    child.sourceStartOffset = r.sourceStartOffset
  last : ∃ r, runs.getLast? = some r ∧ child.lastSequence = r.sequence ∧
    child.nextOffset = r.nextOffset ∧
    child.throughAtomicPosition = r.throughAtomicPosition

/-- A true summary of a page that can be named by a parent. -/
structure Describes (child : QueryRunChild) (runs : List QueryRunReference) : Prop extends
    Summarizes child runs where
  hash_ne : child.hash ≠ 0
  encodedBytes_ne : child.encodedBytes ≠ 0

theorem Summarizes.ne_nil (h : Summarizes child runs) : runs ≠ [] := by
  obtain ⟨r, hr, -⟩ := h.first
  rintro rfl
  simp at hr

theorem sumCounts_eq_some {counts : List UInt64} {total : UInt64} :
    sumCounts counts = some total ↔ (counts.map UInt64.toNat).sum = total.toNat := by
  have hfold : ∀ (start : UInt64), counts.foldlM checkedAddU64 start = some total ↔
        start.toNat + (counts.map UInt64.toNat).sum = total.toNat := by
    induction counts with
    | nil =>
      simp [UInt64.toNat_inj]
    | cons count _ ih =>
      intro start
      simp only [foldlM_cons, Option.bind_eq_bind, Option.bind_eq_some_iff,
        checkedAddU64_eq_some, map_cons, sum_cons]
      constructor
      · rintro ⟨middle, _, hrest⟩
        have htotal := (ih middle).mp hrest
        omega
      intro _
      have hbound : total.toNat < 2 ^ 64 := total.toNat_lt
      have hmiddle : (UInt64.ofNat (start.toNat + count.toNat)).toNat =
          start.toNat + count.toNat := by
        rw [UInt64.toNat_ofNat', Nat.mod_eq_of_lt (by omega)]
      refine ⟨UInt64.ofNat (start.toNat + count.toNat), hmiddle.symm, ?_⟩
      rw [ih, hmiddle]
      omega
  have h := hfold 0
  rw [UInt64.toNat_zero, Nat.zero_add] at h
  exact h

section

variable (h : List.Forall₂ Summarizes children parts)

include h

theorem head?_flatten {first : QueryRunChild}
    (hfirst : children.head? = some first) :
    ∃ r, parts.flatten.head? = some r ∧ first.firstSequence = r.sequence ∧
    first.sourceStartOffset = r.sourceStartOffset := by
  cases h with
  | nil => simp at hfirst
  | cons hhead =>
    simp only [head?_cons, Option.some.injEq] at hfirst
    subst hfirst
    obtain ⟨r, hr, hfields⟩ := hhead.first
    refine ⟨r, ?_, hfields⟩
    rw [flatten_cons, head?_append, hr]
    rfl

theorem getLast?_flatten {last : QueryRunChild}
    (hlast : children.getLast? = some last) :
    ∃ r, parts.flatten.getLast? = some r ∧ last.lastSequence = r.sequence ∧
    last.nextOffset = r.nextOffset ∧ last.throughAtomicPosition = r.throughAtomicPosition := by
  induction h with
  | nil => simp at hlast
  | @cons _ _ _ _ hhead hrest ih =>
    cases hrest with
    | nil =>
      simp only [getLast?_singleton, Option.some.injEq] at hlast
      subst hlast
      simpa using hhead.last
    | cons =>
      obtain ⟨r, hr, hfields⟩ := ih hlast
      refine ⟨r, ?_, hfields⟩
      rw [flatten_cons, getLast?_append, hr]
      rfl

theorem sum_runCounts :
    ((children.map (·.runCount)).map UInt64.toNat).sum = parts.flatten.length := by
  induction h with
  | nil => rfl
  | cons hhead _ ih =>
    simp only [map_cons, sum_cons, flatten_cons, length_append, ih, hhead.runCount]

end

theorem summarizePage_leaf_eq_ok {encodedBytes : Nat}
    (hsize : runs.length ≤ queryRunPageFanout)
    (h : summarizePage (.leaf runs) hash encodedBytes = .ok child) :
    Summarizes child runs ∧ child.hash = hash ∧ child.encodedBytes.toNat = encodedBytes := by
  simp only [summarizePage, ok_rules, not_le] at h
  obtain ⟨hbytes, first, hfirst, last, hlast, rfl⟩ := h
  refine ⟨⟨?_, ⟨first, hfirst, rfl, rfl⟩, ⟨last, hlast, rfl, rfl, rfl⟩⟩, rfl, ?_⟩
  · unfold queryRunPageFanout at hsize
    rw [UInt64.toNat_ofNat', Nat.mod_eq_of_lt (by omega)]
  · rw [UInt64.toNat_ofNat', Nat.mod_eq_of_lt hbytes]

theorem summarizePage_branch_eq_ok {encodedBytes : Nat}
    (hparts : List.Forall₂ Summarizes children parts)
    (h : summarizePage (.branch children) hash encodedBytes = .ok child) :
    Summarizes child parts.flatten ∧ child.hash = hash ∧
    child.encodedBytes.toNat = encodedBytes := by
  simp only [summarizePage, ok_rules, not_le, sumCounts_eq_some, sum_runCounts hparts] at h
  obtain ⟨hbytes, _, hfirst, _, hlast, _, htotal, rfl⟩ := h
  have hhead := head?_flatten hparts hfirst
  have hend := getLast?_flatten hparts hlast
  refine ⟨⟨htotal.symm, hhead, hend⟩, rfl, ?_⟩
  rw [UInt64.toNat_ofNat', Nat.mod_eq_of_lt hbytes]

/-- A described page whose runs tile the source may be listed by a parent. -/
theorem Describes.not_invalid (h : Describes child runs) (htiled : Tiled runs) :
    ¬ child.Invalid := by
  obtain ⟨first, hfirst, hseq, hstart⟩ := h.first
  obtain ⟨_, hlast, hlastSeq, hnext, -⟩ := h.last
  obtain ⟨hle, hlt, -, -⟩ := htiled.head_le_last hfirst hlast
  have hvalid : first.Valid := htiled.valid first (mem_of_mem_head? hfirst)
  rintro (hzero | hzero | hzero | hzero | hbad | hbad)
  · exact h.hash_ne hzero
  · exact h.encodedBytes_ne hzero
  · have hcount := h.runCount
    rw [hzero] at hcount
    exact h.ne_nil (length_eq_zero_iff.mp hcount.symm)
  · exact hvalid.sequence_ne (hseq ▸ hzero)
  · rw [hseq, hlastSeq] at hbad
    exact absurd hbad (not_lt.mpr hle)
  rw [hstart, hnext] at hbad
  exact absurd hbad (not_le.mpr hlt)

/-- Summaries of consecutive stretches of a tiling follow each other. -/
theorem isChain_of_describes
    (h : List.Forall₂ Describes children parts) (htiled : Tiled parts.flatten) :
    children.IsChain QueryRunChild.Precedes := by
  induction h with
  | nil => exact List.IsChain.nil
  | @cons child part children parts hhead hrest ih =>
    have hbelow := ih htiled.of_append.2
    cases hrest with
    | nil => exact List.IsChain.singleton child
    | @cons child' part' children' parts' hnext hmore =>
      refine isChain_cons_cons.mpr ⟨?_, hbelow⟩
      obtain ⟨last, hlast, hseq, hoff, hat⟩ := hhead.last
      obtain ⟨first', hfirst', hseq', hstart'⟩ := hnext.first
      obtain ⟨_, hlast', -, -, hat'⟩ := hnext.last
      have hjoin := (isChain_append.mp htiled.chain).2.2 last hlast first'
        (by rw [flatten_cons, head?_append, hfirst']; rfl)
      have hpart' : Tiled part' := by
        exact htiled.of_append.2.of_append.1
      obtain ⟨-, -, hgrow, -⟩ := hpart'.head_le_last hfirst' hlast'
      refine ⟨?_, ?_, ?_⟩
      · rw [hseq, hseq']
        exact hjoin.1
      · rw [hoff, hstart']
        exact hjoin.2.1
      rw [hat, hat']
      exact hjoin.2.2.trans hgrow

end

section

variable (blake3 : ContentHash) {encoded : EncodedQueryRunPage} {load : PageLoader}

/-- The digest function never returns the value kept for absent digests. -/
def NonzeroDigests : Prop := ∀ bytes, blake3 bytes ≠ 0

/-- A valid page found in storage under the digest its summary gives. -/
def Stored (load : PageLoader) (child : QueryRunChild) (page : QueryRunPage) : Prop :=
  ∃ encoded, encodePage blake3 page = .ok encoded ∧ encoded.summary = child ∧
    load encoded.hash = .ok encoded.bytes

/-- The runs of a stored page tree, oldest first. -/
abbrev HoldsRuns (load : PageLoader) : Nat → QueryRunChild → List QueryRunReference → Prop :=
  Holds (Stored blake3 load)

variable {blake3}

theorem encodePage_eq_ok : encodePage blake3 page = .ok encoded ↔ validatePage page = .ok () ∧
    encoded.bytes = pageBytes page ∧ encoded.hash = blake3 (pageBytes page) ∧
    summarizePage page (blake3 (pageBytes page)) (pageBytes page).length = .ok encoded.summary := by
  simp only [encodePage, ok_rules]
  constructor
  · rintro ⟨hvalid, _, hsummary, rfl⟩
    exact ⟨hvalid, rfl, rfl, hsummary⟩
  rintro ⟨hvalid, _, _, hsummary⟩
  cases encoded
  simp_all

theorem hash_of_encodePage (h : encodePage blake3 page = .ok encoded) :
    encoded.summary.hash = encoded.hash ∧
    encoded.summary.encodedBytes.toNat = encoded.bytes.length := by
  obtain ⟨-, hbytes, hhash, hsummary⟩ := encodePage_eq_ok.mp h
  rw [hbytes, hhash]
  unfold summarizePage at hsummary
  have hofNat : ∀ n, n < 2 ^ 64 → (UInt64.ofNat n).toNat = n := by
    intro n hn
    rw [UInt64.toNat_ofNat', Nat.mod_eq_of_lt hn]
  cases page with
  | leaf =>
    simp only [ok_rules, not_le] at hsummary
    obtain ⟨hlt, _, -, _, -, hchild⟩ := hsummary
    rw [← hchild]
    exact ⟨rfl, hofNat _ hlt⟩
  | branch =>
    simp only [ok_rules, not_le] at hsummary
    obtain ⟨hlt, _, -, _, -, _, -, hchild⟩ := hsummary
    rw [← hchild]
    exact ⟨rfl, hofNat _ hlt⟩

/-- A stored page is what a walk that expects its summary finds. -/
theorem Stored.expectPage (h : Stored blake3 load child page) :
    expectPage blake3 load child.hash (some child) = .ok page := by
  obtain ⟨encoded, hencode, rfl, hload⟩ := h
  obtain ⟨hsummaryHash, -⟩ := hash_of_encodePage hencode
  obtain ⟨hvalid, hbytes, hhash, hsummary⟩ := encodePage_eq_ok.mp hencode
  rw [hsummaryHash]
  simp only [Index.expectPage, loadPageWithSummary, ok_rules, Option.mem_def, Option.some.injEq]
  refine ⟨(page, encoded.summary), ⟨encoded.bytes, hload, ?_, page, ?_,
    encoded.summary, ?_, rfl⟩, ?_, rfl⟩
  · rw [hbytes, hhash]
    simp
  · rw [hbytes]
    exact decodeQueryRunPage_pageBytes hvalid
  · rw [hbytes, hhash]
    exact hsummary
  rintro ⟨_, rfl, hne⟩
  exact hne rfl

theorem Stored.valid (h : Stored blake3 load child page) : validatePage page = .ok () := by
  obtain ⟨_, hencode, -, -⟩ := h
  exact (encodePage_eq_ok.mp hencode).1

/-- One digest names one page and one summary. -/
theorem Stored.unique {child' : QueryRunChild} {page' : QueryRunPage}
    (h : Stored blake3 load child page) (h' : Stored blake3 load child' page')
    (hhash : child.hash = child'.hash) : child = child' ∧ page = page' := by
  obtain ⟨_, hencode, rfl, hload⟩ := h
  obtain ⟨_, hencode', rfl, hload'⟩ := h'
  rw [(hash_of_encodePage hencode).1, (hash_of_encodePage hencode').1] at hhash
  rw [hhash, hload', Except.ok.injEq] at hload
  obtain ⟨hvalid, hbytes, -, -⟩ := encodePage_eq_ok.mp hencode
  obtain ⟨hvalid', hbytes', -, -⟩ := encodePage_eq_ok.mp hencode'
  have hpage : page = page' := by
    apply pageBytes_injective hvalid hvalid'
    rw [← hbytes, ← hbytes', hload]
  subst hpage
  rw [hencode, Except.ok.injEq] at hencode'
  exact ⟨congrArg EncodedQueryRunPage.summary hencode', rfl⟩

/-- The runs under a digest do not depend on how it was reached. -/
theorem holdsRuns_unique {depth depth' : Nat} {child' : QueryRunChild}
    {runs' : List QueryRunReference}
    (h : HoldsRuns blake3 load depth child runs)
    (h' : HoldsRuns blake3 load depth' child' runs') (hhash : child.hash = child'.hash) :
    runs = runs' := by
  have hroot : ∀ {depth child runs}, HoldsRuns blake3 load depth child runs →
      ∃ page, Stored blake3 load child page := by
    intro depth _ _ h
    cases depth with
    | zero => exact h.elim
    | succ => rcases h with h | ⟨_, -, h, -, -⟩ <;> exact ⟨_, h⟩
  obtain ⟨_, hpage⟩ := hroot h
  obtain ⟨_, hpage'⟩ := hroot h'
  obtain rfl := (hpage.unique hpage' hhash).1
  exact h.unique (fun _ _ _ hs hs' => (hs.unique hs' rfl).2) h'

section

variable (hnonzero : NonzeroDigests blake3)

include hnonzero

theorem describes_of_encodePage (h : encodePage blake3 page = .ok encoded)
    (hsummary : Summarizes encoded.summary runs) : Describes encoded.summary runs := by
  obtain ⟨hhash, hlength⟩ := hash_of_encodePage h
  obtain ⟨hvalid, hbytes, hdigest, -⟩ := encodePage_eq_ok.mp h
  refine ⟨hsummary, ?_, ?_⟩
  · rw [hhash, hdigest]
    exact hnonzero _
  intro hzero
  rw [hzero, hbytes] at hlength
  have hpositive := (length_pageBytes (size_of_validatePage hvalid).2).1
  simp only [UInt64.toNat_zero] at hlength
  omega

/-- The summary of every stored tree is true. -/
theorem describes_of_holds {depth : Nat}
    (h : HoldsRuns blake3 load depth child runs) : Describes child runs := by
  refine h.recurse ?_ ?_
  · intro _ _ hstored
    have hvalid := validatePage_leaf_eq_ok.mp hstored.valid
    obtain ⟨_, hencode, rfl, -⟩ := hstored
    obtain ⟨-, -, -, hsummary⟩ := encodePage_eq_ok.mp hencode
    exact describes_of_encodePage hnonzero hencode (summarizePage_leaf_eq_ok hvalid.2.1 hsummary).1
  intro _ children parts hstored hparts
  obtain ⟨_, hencode, rfl, -⟩ := hstored
  obtain ⟨-, -, -, hsummary⟩ := encodePage_eq_ok.mp hencode
  have hsummaries : Forall₂ Summarizes children parts := hparts.imp fun _ _ h => h.toSummarizes
  exact describes_of_encodePage hnonzero hencode (summarizePage_branch_eq_ok hsummaries hsummary).1

/-- A page of runs that tile the source is written. -/
theorem encodePage_leaf (hne : runs ≠ []) (hsize : runs.length ≤ queryRunPageFanout)
    (htiled : Tiled runs) :
    ∃ encoded, encodePage blake3 (.leaf runs) = .ok encoded ∧ Describes encoded.summary runs := by
  have hvalid := validatePage_leaf_eq_ok.mpr ⟨hne, hsize, htiled⟩
  have hlength := (length_pageBytes (size_of_validatePage hvalid).2).2
  have hfirst := head?_eq_some_head hne
  have hlast := getLast?_eq_some_getLast hne
  have hsummary : ∃ child, summarizePage (.leaf runs) (blake3 (pageBytes (.leaf runs)))
      (pageBytes (.leaf runs)).length = .ok child := by
    simp only [summarizePage, ok_rules, not_le]
    exact ⟨_, hlength, _, hfirst, _, hlast, rfl⟩
  obtain ⟨child, hsummary⟩ := hsummary
  have hencode : encodePage blake3 (.leaf runs) =
      .ok ⟨blake3 (pageBytes (.leaf runs)), pageBytes (.leaf runs), child⟩ :=
    encodePage_eq_ok.mpr ⟨hvalid, rfl, rfl, hsummary⟩
  exact ⟨_, hencode, describes_of_encodePage hnonzero hencode
    (summarizePage_leaf_eq_ok hsize hsummary).1⟩

/-- A page of described children whose runs tile the source is written. -/
theorem encodePage_branch (hne : children ≠ []) (hsize : children.length ≤ queryRunPageFanout)
    (hparts : List.Forall₂ Describes children parts) (htiled : Tiled parts.flatten) :
    ∃ encoded, encodePage blake3 (.branch children) = .ok encoded ∧
    Describes encoded.summary parts.flatten := by
  have hsummaries : Forall₂ Summarizes children parts := hparts.imp fun _ _ h => h.toSummarizes
  have hvalid : validatePage (.branch children) = .ok () := by
    refine validatePage_branch_eq_ok.mpr ⟨hne, hsize, isChain_of_describes hparts htiled, ?_⟩
    intro _ hchild
    obtain ⟨part, hpart, hdescribes⟩ := forall₂_exists_right hparts hchild
    exact hdescribes.not_invalid (tiled_of_mem_parts htiled part hpart)
  have hlength := (length_pageBytes (size_of_validatePage hvalid).2).2
  have hfirst := head?_eq_some_head hne
  have hlast := getLast?_eq_some_getLast hne
  -- sequences grow from at least one, so the count fits a word
  have hcount : parts.flatten.length < 2 ^ 64 := by
    obtain ⟨r, hr, -⟩ := head?_flatten hsummaries hfirst
    obtain ⟨r', hr', -⟩ := getLast?_flatten hsummaries hlast
    obtain ⟨-, -, -, _⟩ := htiled.head_le_last hr hr'
    have hpositive : r.sequence.toNat ≠ 0 := fun hzero =>
      (htiled.valid r (mem_of_mem_head? hr)).sequence_ne (UInt64.toNat_inj.mp hzero)
    have hbound := r'.sequence.toNat_lt
    omega
  have hsummary : ∃ child, summarizePage (.branch children) (blake3 (pageBytes (.branch children)))
    (pageBytes (.branch children)).length = .ok child := by
    simp only [summarizePage, ok_rules, not_le, sumCounts_eq_some, sum_runCounts hsummaries]
    refine ⟨_, hlength, _, hfirst, _, hlast, UInt64.ofNat parts.flatten.length, ?_, rfl⟩
    rw [UInt64.toNat_ofNat', Nat.mod_eq_of_lt hcount]
  obtain ⟨child, hsummary⟩ := hsummary
  have hencode : encodePage blake3 (.branch children) =
      .ok ⟨blake3 (pageBytes (.branch children)), pageBytes (.branch children), child⟩ :=
    encodePage_eq_ok.mpr ⟨hvalid, rfl, rfl, hsummary⟩
  exact ⟨_, hencode, describes_of_encodePage hnonzero hencode
    (summarizePage_branch_eq_ok hsummaries hsummary).1⟩

end

end

end Keldra.Index
