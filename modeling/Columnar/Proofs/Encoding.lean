import Columnar.Column.Dictionary
import Mathlib.Data.List.Nodup

namespace Columnar.Dictionary

def Distinct (d : Dictionary) : Prop := d.labels.toList.Nodup

theorem Distinct.label_injective {d : Dictionary} (h : d.Distinct) {m n : Fin d.labels.size}
    (he : d.label m = d.label n) : m = n := by
  apply Fin.ext
  exact (@List.Nodup.getElem_inj_iff _ _ h m m.isLt n n.isLt).1 (by simpa [label] using he)

namespace Lexicon

structure Sound (d : Lexicon) : Prop where
  distinct : d.labels.toList.Nodup
  places : ∀ (s : String) (n : Nat), d.places[s]? = some n ↔ d.labels[n]? = some s

theorem sound_empty : Sound .empty where
  distinct := List.nodup_nil
  places s n := by simp [empty]

theorem Sound.mem_labels {d : Lexicon} (hd : d.Sound) {s : String} :
    s ∈ d.labels ↔ d.places.contains s := by
  rw [Std.HashMap.contains_eq_isSome_getElem?, Option.isSome_iff_exists]
  simp only [hd.places, Array.mem_iff_getElem?]

theorem Sound.insert {d : Lexicon} (hd : d.Sound) (s : String) : (d.insert s).Sound := by
  unfold Lexicon.insert
  split
  · exact hd
  next hs =>
    have fresh : s ∉ d.labels := fun h => hs (hd.mem_labels.1 h)
    refine ⟨?_, fun t n => ?_⟩
    · simp only [Array.toList_push]
      exact List.nodup_append.2 ⟨hd.distinct, List.nodup_singleton s, fun a ha b hb hab =>
        fresh (List.mem_singleton.1 hb ▸ hab ▸ Array.mem_def.2 ha)⟩
    · rw [Std.HashMap.getElem?_insert, Array.getElem?_push]
      by_cases ht : s = t
      · subst ht
        by_cases hn : n = d.labels.size
        · simp [hn]
        · have : d.labels[n]? ≠ some s := fun h => fresh (Array.mem_of_getElem? h)
          simp [hn, this, Ne.symm hn]
      · by_cases hn : n = d.labels.size
        · have none : d.labels[d.labels.size]? = none := by simp
          have : d.places[t]? ≠ some d.labels.size := fun h => by
            rw [hd.places, none] at h
            cases h
          simp [ht, hn, this]
        · simp [ht, hn, hd.places]

theorem contains_insert (d : Lexicon) (s t : String) :
    (d.insert s).places.contains t = (s == t || d.places.contains t) := by
  unfold Lexicon.insert
  split
  next h =>
    by_cases hst : s = t
    · subst hst
      simp [h]
    · simp [hst]
  · simp [Std.HashMap.contains_insert]

theorem foldl_insert (rows : List (Option String)) {d : Lexicon} (hd : d.Sound) :
    let e := rows.foldl (fun d row => row.elim d d.insert) d
    e.Sound ∧ ∀ s, some s ∈ rows ∨ d.places.contains s → e.places.contains s := by
  induction rows generalizing d with
  | nil => exact ⟨hd, fun s h => by simpa using h⟩
  | cons row rows ih =>
    cases row with
    | none =>
      obtain ⟨sound, all⟩ := ih hd
      exact ⟨sound, fun s h => all s (by simpa using h)⟩
    | some t =>
      obtain ⟨sound, all⟩ := ih (hd.insert t)
      refine ⟨sound, fun s h => all s ?_⟩
      rw [contains_insert]
      by_cases hts : t = s
      · simp [hts]
      · simp only [List.mem_cons, Option.some.injEq, Ne.symm hts, false_or] at h
        simpa [hts] using h

theorem sound_ofTexts (rows : Array (Option String)) : (ofTexts rows).Sound := by
  rw [ofTexts, ← Array.foldl_toList]
  exact (foldl_insert rows.toList sound_empty).1

theorem contains_ofTexts {rows : Array (Option String)} {s : String} (h : some s ∈ rows) :
    (ofTexts rows).places.contains s := by
  rw [ofTexts, ← Array.foldl_toList]
  exact (foldl_insert rows.toList sound_empty).2 s (.inl (Array.mem_def.1 h))

theorem Sound.code? {d : Lexicon} (hd : d.Sound) {s : String} (h : d.places.contains s) :
    ∃ n, d.code? s = some n ∧ d.labels[n] = s := by
  rw [Std.HashMap.contains_eq_isSome_getElem?, Option.isSome_iff_exists] at h
  obtain ⟨n, hn⟩ := h
  obtain ⟨lt, label⟩ := Array.getElem?_eq_some_iff.1 ((hd.places s n).1 hn)
  exact ⟨⟨n, lt⟩, by simp [Lexicon.code?, hn, lt], label⟩

end Lexicon

theorem encode_distinct (rows : Array (Option String)) : (encode rows).Distinct :=
  (Lexicon.sound_ofTexts rows).distinct

@[simp] theorem size_codes_encode (rows : Array (Option String)) :
    (encode rows).codes.size = rows.size := by simp [encode]

theorem getElem?_codes_encode (rows : Array (Option String)) (i : Nat) :
    (encode rows).codes[i]? = rows[i]?.map (·.bind (Lexicon.ofTexts rows).code?) :=
  Array.getElem?_map

theorem text?_encode (rows : Array (Option String)) (i : Nat) :
    (encode rows).text? i = rows[i]?.join := by
  rw [text?, getElem?_codes_encode]
  cases hr : rows[i]? with
  | none => rfl
  | some row =>
    cases row with
    | none => rfl
    | some s =>
      obtain ⟨n, hn, label⟩ := (Lexicon.sound_ofTexts rows).code?
        (Lexicon.contains_ofTexts (Array.mem_of_getElem? hr))
      rw [Option.map_some, Option.join_some, Option.bind_some, hn]
      exact congrArg some label

end Columnar.Dictionary
