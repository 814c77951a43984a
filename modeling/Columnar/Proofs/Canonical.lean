import Columnar.Frame
import Columnar.Proofs.Stacking
import Mathlib.Data.List.Induction
import Mathlib.Data.List.Perm.Subperm

/-!
A dictionary of texts is determined by the texts of the rows: it lists those that occur in the order in which they
first do, and the codes are their places in it. One pass over the rows, with codes that are signed words of 32 bits,
makes it. Columns with whatever dictionaries are stacked into one such dictionary.
-/

namespace Columnar

namespace Dictionary

namespace Lexicon

structure Lists (labels : Array String) (rows : List (Option String)) : Prop where
  occurs : ∀ s, s ∈ labels ↔ some s ∈ rows
  firstSeen : labels.toList.Pairwise fun s t => rows.idxOf (some s) < rows.idxOf (some t)

variable {labels : Array String} {rows : List (Option String)} {row : Option String} {s : String}

theorem Lists.later (h : Lists labels rows) (row : Option String) :
    labels.toList.Pairwise fun s t => (rows ++ [row]).idxOf (some s) < (rows ++ [row]).idxOf (some t) := by
  have there {t : String} (ht : t ∈ labels.toList) : (rows ++ [row]).idxOf (some t) = rows.idxOf (some t) :=
    List.idxOf_append_of_mem ((h.occurs t).1 (Array.mem_def.2 ht))
  refine h.firstSeen.imp_of_mem fun {t u} ht hu less => ?_
  rwa [there ht, there hu]

theorem Lists.again (h : Lists labels rows) (old : ∀ s, row = some s → s ∈ labels) : Lists labels (rows ++ [row]) where
  occurs s := by
    rw [List.mem_append, List.mem_singleton, ← h.occurs]
    exact ⟨.inl, fun hs => hs.elim id fun last => old s last.symm⟩
  firstSeen := h.later row

theorem Lists.fresh (h : Lists labels rows) (new : s ∉ labels) : Lists (labels.push s) (rows ++ [some s]) where
  occurs t := by
    rw [Array.mem_push, List.mem_append, List.mem_singleton, Option.some.injEq, h.occurs]
  firstSeen := by
    rw [Array.toList_push, List.pairwise_append]
    refine ⟨h.later (some s), List.pairwise_singleton _ s, fun t ht u hu => ?_⟩
    have before := (h.occurs t).1 (Array.mem_def.2 ht)
    rw [List.mem_singleton.1 hu, List.idxOf_append_of_mem before, List.idxOf_append_of_notMem (mt (h.occurs s).2 new)]
    exact Nat.lt_of_lt_of_le (List.idxOf_lt_length_of_mem before) (Nat.le_add_right ..)

theorem lists_foldl (rows : List (Option String)) :
    Lists (rows.foldl (fun d row => row.elim d d.insert) empty).labels rows := by
  induction rows using List.reverseRecOn with
  | nil => exact ⟨fun s => by simp [empty], .nil⟩
  | append_singleton rows row ih =>
    rw [List.foldl_append, List.foldl_cons, List.foldl_nil]
    have sound := (foldl_insert rows sound_empty).1
    cases row with
    | none => exact ih.again (by simp)
    | some s =>
      rw [Option.elim_some, insert]
      split
      next old =>
        refine ih.again ?_
        rintro _ ⟨⟩
        exact sound.mem_labels.2 old
      next new => exact ih.fresh (mt sound.mem_labels.1 new)

theorem lists_ofTexts (rows : Array (Option String)) : Lists (ofTexts rows).labels rows.toList := by
  rw [ofTexts, ← Array.foldl_toList]
  exact lists_foldl rows.toList

theorem places_insert {d : Lexicon} {n : Nat} (h : d.places[s]? = some n) (t : String) :
    (d.insert t).places[s]? = some n := by
  unfold insert
  split
  · exact h
  next new =>
    have other : t ≠ s := by
      rintro rfl
      rw [Std.HashMap.contains_eq_isSome_getElem?, h] at new
      exact new rfl
    rwa [Std.HashMap.getElem?_insert, if_neg (by simpa using other)]

theorem places_foldl {d : Lexicon} {n : Nat} (h : d.places[s]? = some n) (rows : List (Option String)) :
    (rows.foldl (fun d row => row.elim d d.insert) d).places[s]? = some n := by
  induction rows generalizing d with
  | nil => exact h
  | cons row rows ih =>
    cases row with
    | none => exact ih h
    | some t => exact ih (places_insert h t)

end Lexicon

def words (d : Dictionary) : Array (Option Int32) := d.codes.map (·.map fun code => .ofNat code.val)

/-- What a dictionary for some rows of text has to be. -/
structure Encodes (d : Dictionary) (rows : Array (Option String)) : Prop where
  height : d.words.size = rows.size
  null : ∀ i : Nat, d.words[i]? = some none ↔ rows[i]? = some none
  code : ∀ (i : Nat) word, d.words[i]? = some (some word) →
    0 ≤ word.toInt ∧ ∃ s, rows[i]? = some (some s) ∧ d.labels[word.toInt.toNat]? = some s
  text : ∀ i, d.text? i = rows[i]?.join
  distinct : d.Distinct
  occurs : ∀ s, s ∈ d.labels ↔ some s ∈ rows
  firstSeen : d.labels.toList.Pairwise fun s t => rows.toList.idxOf (some s) < rows.toList.idxOf (some t)

theorem size_labels_encode (rows : Array (Option String)) : (encode rows).labels.size ≤ rows.size := by
  have distinct : ((encode rows).labels.toList.map some).Nodup :=
    (encode_distinct rows).map (Option.some_injective _)
  have occurring : (encode rows).labels.toList.map some ⊆ rows.toList := fun r hr => by
    obtain ⟨s, hs, rfl⟩ := List.mem_map.1 hr
    exact ((Lexicon.lists_ofTexts rows).occurs s).1 (Array.mem_def.2 hs)
  simpa using (List.subperm_of_subset distinct occurring).length_le

@[simp] theorem size_words (d : Dictionary) : d.words.size = d.codes.size := Array.size_map

theorem words_encode (rows : Array (Option String)) :
    (encode rows).words = rows.map (·.bind fun s => (Lexicon.ofTexts rows).places[s]?.map .ofNat) := by
  have place (s : String) : ((Lexicon.ofTexts rows).code? s).map (fun code => Int32.ofNat code.val) =
      (Lexicon.ofTexts rows).places[s]?.map .ofNat := by
    cases hs : (Lexicon.ofTexts rows).places[s]? with
    | none => simp [Lexicon.code?, hs]
    | some n =>
      obtain ⟨lt, -⟩ := Array.getElem?_eq_some_iff.1 (((Lexicon.sound_ofTexts rows).places s n).1 hs)
      simp [Lexicon.code?, hs, lt]
  rw [words, encode, Array.map_map]
  refine Array.map_congr_left fun row _ => ?_
  cases row with
  | none => rfl
  | some s => exact place s

theorem exists_place {rows : Array (Option String)} {i : Nat} {s : String} (h : rows[i]? = some (some s)) :
    ∃ n, (Lexicon.ofTexts rows).places[s]? = some n ∧ (encode rows).labels[n]? = some s := by
  have known := Lexicon.contains_ofTexts (Array.mem_of_getElem? h)
  rw [Std.HashMap.contains_eq_isSome_getElem?, Option.isSome_iff_exists] at known
  obtain ⟨n, hn⟩ := known
  exact ⟨n, hn, ((Lexicon.sound_ofTexts rows).places s n).1 hn⟩

theorem encodes_encode {rows : Array (Option String)} (fits : rows.size ≤ Frame.maxRows) :
    (encode rows).Encodes rows := by
  have height : (encode rows).words.size = rows.size := by simp
  have occurs (s : String) : s ∈ (encode rows).labels ↔ some s ∈ rows :=
    ((Lexicon.lists_ofTexts rows).occurs s).trans Array.mem_def.symm
  have word (i : Nat) : (encode rows).words[i]? =
      rows[i]?.map (·.bind fun s => (Lexicon.ofTexts rows).places[s]?.map .ofNat) := by
    rw [words_encode, Array.getElem?_map]
  refine ⟨height, fun i => ?_, fun i w hw => ?_, text?_encode rows, encode_distinct rows, occurs,
    (Lexicon.lists_ofTexts rows).firstSeen⟩
  · rw [word]
    cases h : rows[i]? with
    | none => simp
    | some row =>
      cases row with
      | none => simp
      | some s =>
        obtain ⟨n, hn, -⟩ := exists_place h
        simp [hn]
  · rw [word] at hw
    obtain ⟨row, h, hw⟩ := Option.map_eq_some_iff.1 hw
    obtain ⟨s, rfl, ofPlace⟩ := Option.bind_eq_some_iff.1 hw
    obtain ⟨n, hn, label⟩ := exists_place h
    rw [hn] at ofPlace
    obtain rfl := Option.some.inj ofPlace
    have below : n < 2 ^ 31 := by
      have limit : Frame.maxRows = 2 ^ 31 - 1 := rfl
      have lt := (Array.getElem?_eq_some_iff.1 label).1
      have := size_labels_encode rows
      omega
    rw [Int32.toInt_ofNat_of_lt below]
    exact ⟨Int.natCast_nonneg n, s, h, label⟩

theorem Encodes.unique {d e : Dictionary} {rows : Array (Option String)} (hd : d.Encodes rows) (he : e.Encodes rows) :
    d = e := by
  have same : d.labels = e.labels := by
    have members (s : String) : s ∈ d.labels.toList ↔ s ∈ e.labels.toList := by
      rw [← Array.mem_def, ← Array.mem_def, hd.occurs, he.occurs]
    refine Array.toList_inj.1 (List.Perm.eq_of_pairwise ?_ hd.firstSeen he.firstSeen
      ((List.perm_ext_iff_of_nodup hd.distinct he.distinct).2 members))
    intro s t _ _ less more
    exact absurd (Nat.lt_trans less more) (Nat.lt_irrefl _)
  obtain ⟨labels, codes⟩ := d
  obtain ⟨_, codes'⟩ := e
  cases same
  congr 1
  have heights : codes.size = codes'.size := by simpa using hd.height.trans he.height.symm
  refine Array.ext heights fun i hi hi' => ?_
  have texts := (hd.text i).trans (he.text i).symm
  simp only [text?, Array.getElem?_eq_getElem hi, Array.getElem?_eq_getElem hi', Option.join_some] at texts
  exact Option.map_injective (fun m n => hd.distinct.label_injective) texts

structure Draft where
  labels : Array String
  codeOf : Std.HashMap String Int32
  codes : Array (Option Int32)

namespace Draft

def empty : Draft := ⟨#[], {}, #[]⟩

def add (d : Draft) : Option String → Draft
  | none => { d with codes := d.codes.push none }
  | some s =>
    match d.codeOf[s]? with
    | some code => { d with codes := d.codes.push (some code) }
    | none =>
      let code := .ofNat d.labels.size
      ⟨d.labels.push s, d.codeOf.insert s code, d.codes.push (some code)⟩

def ofTexts (rows : Array (Option String)) : Draft := rows.foldl add empty

structure Tracks (e : Draft) (d : Lexicon) : Prop where
  labels : e.labels = d.labels
  codeOf : ∀ s : String, e.codeOf[s]? = d.places[s]?.map Int32.ofNat

variable {e : Draft} {d : Lexicon}

theorem Tracks.add (h : e.Tracks d) (s : String) :
    (e.add (some s)).Tracks (d.insert s) ∧
      (e.add (some s)).codes = e.codes.push ((d.insert s).places[s]?.map Int32.ofNat) := by
  have known := h.codeOf s
  cases hs : d.places[s]? with
  | some n =>
    have old : d.places.contains s := by simp [Std.HashMap.contains_eq_isSome_getElem?, hs]
    rw [hs, Option.map_some] at known
    simp only [Draft.add, known, Lexicon.insert, old, ↓reduceIte, hs, Option.map_some, and_true]
    exact ⟨h.labels, h.codeOf⟩
  | none =>
    have new : d.places.contains s = false := by simp [Std.HashMap.contains_eq_isSome_getElem?, hs]
    rw [hs, Option.map_none] at known
    simp only [Draft.add, known, Lexicon.insert, new, h.labels]
    refine ⟨⟨rfl, fun t => ?_⟩, ?_⟩
    · simp only [Bool.false_eq_true, ↓reduceIte, Std.HashMap.getElem?_insert]
      split
      · rfl
      · exact h.codeOf t
    · simp

theorem Tracks.foldl (h : e.Tracks d) (rows : List (Option String)) :
    let final := rows.foldl (fun d row => row.elim d d.insert) d
    (rows.foldl Draft.add e).labels = final.labels ∧
      (rows.foldl Draft.add e).codes =
        e.codes ++ (rows.map (·.bind fun s => final.places[s]?.map Int32.ofNat)).toArray := by
  induction rows generalizing e d with
  | nil => exact ⟨h.labels, by simp⟩
  | cons row rows ih =>
    cases row with
    | none =>
      obtain ⟨labels, codes⟩ := ih (e := e.add none) ⟨h.labels, h.codeOf⟩
      refine ⟨labels, codes.trans ?_⟩
      simp [Draft.add]
    | some s =>
      obtain ⟨tracks, code⟩ := h.add s
      obtain ⟨labels, codes⟩ := ih tracks
      refine ⟨labels, codes.trans ?_⟩
      obtain ⟨n, hn⟩ : ∃ n, (d.insert s).places[s]? = some n := by
        rw [← Option.isSome_iff_exists, ← Std.HashMap.contains_eq_isSome_getElem?, Lexicon.contains_insert]
        simp
      simp [code, hn, Lexicon.places_foldl hn rows]

theorem ofTexts_eq (rows : Array (Option String)) :
    (ofTexts rows).labels = (encode rows).labels ∧ (ofTexts rows).codes = (encode rows).words := by
  have start : empty.Tracks .empty := ⟨rfl, by simp [empty, Lexicon.empty]⟩
  obtain ⟨labels, codes⟩ := start.foldl rows.toList
  rw [Array.foldl_toList, Array.foldl_toList] at labels codes
  refine ⟨labels, ?_⟩
  rw [words_encode, ofTexts, codes]
  simp [empty, Lexicon.ofTexts, ← Array.toList_inj]

end Draft

end Dictionary

namespace Column

/-- A column with codes into the only dictionary for some rows of text, the one that a single pass makes. -/
def Encodes (c : Column) (rows : Array (Option String)) : Prop :=
  (∀ i, c.text? i = rows[i]?.join) ∧
    ∃ d, c.cells = .categorical d ∧ d.Encodes rows ∧ (∀ e : Dictionary, e.Encodes rows → e = d) ∧
      (Dictionary.Draft.ofTexts rows).labels = d.labels ∧ (Dictionary.Draft.ofTexts rows).codes = d.words

theorem text?_ofTexts (name : String) (rows : Array (Option String)) (i : Nat) :
    (ofTexts name rows).text? i = rows[i]?.join := by
  rw [text?_eq, reads_ofTexts]
  cases rows[i]?.join <;> rfl

theorem encodes_ofTexts (name : String) {rows : Array (Option String)} (fits : rows.size ≤ Frame.maxRows) :
    (ofTexts name rows).Encodes rows := by
  have encodes := Dictionary.encodes_encode fits
  obtain ⟨labels, codes⟩ := Dictionary.Draft.ofTexts_eq rows
  exact ⟨text?_ofTexts name rows, .encode rows, rfl, encodes, fun e he => he.unique encodes, labels, codes⟩

def stackedTexts (cs : List Column) : Array (Option String) := (cs.flatMap (·.texts.toList)).toArray

theorem stackedTexts_cons (c : Column) (cs : List Column) : stackedTexts (c :: cs) = c.texts ++ stackedTexts cs := by
  simp [stackedTexts, ← Array.toList_inj]

theorem foldl_texts (cs : List Column) (acc : Array (Option String)) :
    cs.foldl (fun rows c => rows ++ c.texts) acc = acc ++ stackedTexts cs := by
  induction cs generalizing acc with
  | nil => simp [stackedTexts]
  | cons c cs ih =>
    rw [List.foldl_cons, ih, stackedTexts_cons, Array.append_assoc]

theorem size_stackedTexts (cs : List Column) : (stackedTexts cs).size = (cs.map (·.height)).sum := by
  simp [stackedTexts]

theorem commonType_dictionaries {cs : List Column} {s : DType} (start : s = .categorical ∨ s = .null)
    (kinds : ∀ c ∈ cs, c.dtype = .categorical ∨ c.dtype = .null)
    (coded : s = .categorical ∨ ∃ c ∈ cs, c.dtype = .categorical) :
    cs.foldl (fun t c => t.common c.dtype) s = .categorical := by
  induction cs generalizing s with
  | nil => simpa using coded
  | cons c cs ih =>
    obtain ⟨kind, kinds⟩ := List.forall_mem_cons.1 kinds
    have kept : (s.common c.dtype = .categorical ∨ s.common c.dtype = .null) ∧
        (s = .categorical ∨ c.dtype = .categorical → s.common c.dtype = .categorical) := by
      rcases start with rfl | rfl <;> rcases kind with kind | kind <;> rw [kind] <;> decide
    refine ih kept.1 kinds ?_
    simp only [List.mem_cons, exists_eq_or_imp, ← or_assoc] at coded
    exact coded.imp_left kept.2

theorem stack_dictionaries {c : Column} {cs : List Column}
    (kinds : ∀ d ∈ c :: cs, d.dtype = .categorical ∨ d.dtype = .null)
    (coded : ∃ d ∈ c :: cs, d.dtype = .categorical) :
    stack (c :: cs) = .ok (ofTexts c.name (stackedTexts (c :: cs))) := by
  obtain ⟨first, rest⟩ := List.forall_mem_cons.1 kinds
  have common : commonType c cs = .categorical := commonType_dictionaries first rest (by simpa using coded)
  simp only [stack, stackOnto, common, foldl_texts, stackedTexts_cons]

/-- Texts are encoded without loss by the only dictionary for them; columns with any dictionaries, and columns of
nulls beside them, are stacked into the only dictionary for the texts of all their rows. -/
theorem encoding_canonical :
    (∀ name rows, rows.size ≤ Frame.maxRows → (ofTexts name rows).Encodes rows) ∧
    ∀ first rest, (∀ c ∈ first :: rest, c.dtype = .categorical ∨ c.dtype = .null) →
      (∃ c ∈ first :: rest, c.dtype = .categorical) → ((first :: rest).map (·.height)).sum ≤ Frame.maxRows →
      ∃ c, stack (first :: rest) = .ok c ∧ c.name = first.name ∧ c.Encodes (stackedTexts (first :: rest)) := by
  refine ⟨fun name rows fits => encodes_ofTexts name fits, fun first rest kinds some fits => ?_⟩
  refine ⟨_, stack_dictionaries kinds some, rfl, encodes_ofTexts _ ?_⟩
  rwa [size_stackedTexts]

def unlike : List Column :=
  [⟨"n", .null 1⟩, ⟨"x", .categorical ⟨#["b", "a", "b"], #[some 2, none]⟩⟩,
    ⟨"y", .categorical ⟨#["c", "b", "a", "c"], #[some 1, some 0]⟩⟩]

theorem encoding_canonical_unlike :
    (ofTexts "x" #[some "b", none, some "a", some "b"]).Encodes #[some "b", none, some "a", some "b"] ∧
      ∃ c, stack unlike = .ok c ∧ c.name = "n" ∧ c.Encodes #[none, some "b", none, some "b", some "c"] := by
  obtain ⟨encoded, stacked⟩ := encoding_canonical
  have texts : stackedTexts unlike = #[none, some "b", none, some "b", some "c"] := by decide
  refine ⟨encoded "x" _ (by decide), ?_⟩
  rw [← texts]
  exact stacked _ _ (by decide) (by decide) (by decide)

end Column

end Columnar
