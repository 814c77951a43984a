import Columnar.Proofs.Selecting
import Columnar.Proofs.Tokens

namespace Columnar

namespace Column

structure Equal (c d : Column) : Prop where
  name : c.name = d.name
  dtype : c.dtype = d.dtype
  height : c.height = d.height
  reads : ∀ i, c.reads i = d.reads i

variable {n : Nat} {rows : List Nat} {c d d' : Column}

theorem Picks.equal (h : c.Picks rows d) (h' : c.Picks rows d') (name : d.name = d'.name) : d.Equal d' :=
  ⟨name, h.dtype.trans h'.dtype.symm, h.height.trans h'.height.symm, fun i => (h.reads i).trans (h'.reads i).symm⟩

theorem Equal.local (h : c.Equal d) (hn : c.height = n) : Local n (List.range n) c d :=
  ⟨hn, h.dtype.symm, by rw [List.length_range, ← h.height, hn], fun i => by rw [bind_range_reads hn, h.reads]⟩

end Column

namespace Expr

variable {e : Expr} {f g : Frame}

theorem found_of_equal (hf : f.Rectangular) {name : String}
    (h : Option.Rel Column.Equal (f.column? name) (g.column? name)) :
    Agrees (Column.Local f.height (List.range f.height)) (f.column name) (g.column name) := by
  unfold Frame.column
  cases hc : f.column? name with
  | none =>
    cases hd : g.column? name with
    | none => exact .error _ _
    | some d =>
      rw [hc, hd] at h
      cases h
  | some c =>
    cases hd : g.column? name with
    | none =>
      rw [hc, hd] at h
      cases h
    | some d =>
      rw [hc, hd] at h
      cases h with
      | some hcd => exact .ok (hcd.local (hf.height hc))

/-- An expression gives a column of the height of the frame under its own name. Gathering rows and evaluating
it can be done in either order, and frames of one height that agree on the columns that it names give it equal
values, or none. -/
theorem evaluate_rowByRow (e : Expr) {f : Frame} (hf : f.Capped) :
    (∀ c, e.evaluate f = .ok c → c.height = f.height ∧ c.name = e.outputName) ∧
    (∀ rows : List Nat, (∀ i ∈ rows, i < f.height) → rows.length ≤ Frame.maxRows →
      ∃ g, f.take (rows.map some).toArray = .ok g ∧
        Agrees (fun c d => d.Equal (c.take (rows.map some).toArray)) (e.evaluate f) (e.evaluate g)) ∧
    ∀ g : Frame, g.height = f.height →
      (∀ n ∈ e.columns, Option.Rel Column.Equal (f.column? n) (g.column? n)) →
      Agrees Column.Equal (e.evaluate f) (e.evaluate g) := by
  refine ⟨fun c hc => ?_, fun rows below fewer => ?_, fun g height agree => ?_⟩
  · obtain ⟨d, hd, rfl⟩ := map_eq_ok.1 hc
    have self := eval_local List.length_range (.all hf.short) e fun n _ =>
      (Frame.selects_range hf.toRectangular).found hf.toRectangular n
    obtain ⟨_, -, hlocal⟩ := Agrees.follows self d hd
    exact ⟨hlocal.height, rfl⟩
  · obtain ⟨g, hg⟩ := Frame.take_ok hf.toRectangular fun _ => fewer
    have selects := Frame.selects_take hg
    have along := eval_local selects.height.symm ⟨below, hf.short, fewer⟩ e fun n _ =>
      selects.found hf.toRectangular n
    exact ⟨g, hg, Agrees.map along fun c d h =>
      (h.rename e.outputName e.outputName).picks.equal (Column.draws_gather _ rows).toPicks rfl⟩
  · have along := eval_local (by rw [List.length_range, height]) (.all hf.short) e fun n hn =>
      found_of_equal hf.toRectangular (agree n (mem_columns.2 hn))
    refine Agrees.map along fun c d h => ?_
    have named := h.rename e.outputName e.outputName
    exact (Column.local_self named.height).picks.equal named.picks rfl

def tagged : Frame :=
  ⟨[⟨"k", .categorical ⟨#["u", "v", "u"], #[some 2, none, some 1]⟩⟩,
    ⟨"l", .categorical ⟨#["c", "d"], #[none, some 0, some 0]⟩⟩], 3⟩

def retagged : Frame :=
  ⟨[⟨"x", .int64 #[some 1, some 2, some 3]⟩, ⟨"l", .categorical ⟨#["d", "c"], #[none, some 1, some 1]⟩⟩,
    ⟨"k", .categorical ⟨#["v", "u"], #[some 1, none, some 0]⟩⟩], 3⟩

def filledTags : Expr := .named (.fillNull (.column "k") (.column "l")) "tag"

theorem evaluate_rowByRow_filledTags :
    ∃ c, filledTags.evaluate tagged = .ok c ∧ c.height = 3 ∧ c.name = "tag" ∧
      (∃ g d, tagged.take #[some 2, some 0, some 2] = .ok g ∧ filledTags.evaluate g = .ok d ∧
        d.Equal (c.take #[some 2, some 0, some 2])) ∧
      ∃ d, filledTags.evaluate retagged = .ok d ∧ c.Equal d := by
  have capped : tagged.Capped := ⟨⟨by decide, by decide, fun _ => by decide⟩, by decide⟩
  obtain ⟨shape, gathered, agreeing⟩ := evaluate_rowByRow filledTags capped
  have given : (filledTags.evaluate tagged).isOk := by decide
  obtain ⟨c, hc⟩ := isOk_iff.1 given
  obtain ⟨g, hg, along⟩ := gathered [2, 0, 2] (by decide) (by decide)
  obtain ⟨d, hd, equal⟩ := along.follows c hc
  refine ⟨c, hc, (shape c hc).1, (shape c hc).2, ⟨g, d, hg, hd, equal⟩, ?_⟩
  refine (agreeing retagged rfl fun n hn => ?_).follows c hc
  have named : n = "k" ∨ n = "l" := by simpa using (show n ∈ ["k", "l"] from hn)
  rcases named with rfl | rfl
  · exact .some ⟨rfl, rfl, rfl, fun i => by rcases i with _ | _ | _ | i <;> rfl⟩
  · exact .some ⟨rfl, rfl, rfl, fun i => by rcases i with _ | _ | _ | i <;> rfl⟩

end Expr

end Columnar
