import Watchtower.Syncer.Commits

namespace Watchtower.Syncer
open Lib

theorem HeightRange.mem_heights {range : HeightRange} {h : Nat} :
    h ∈ range.heights ↔ range.start ≤ h ∧ h < range.stop := by
  simp only [HeightRange.heights, HeightRange.len, List.mem_range'_1]
  omega

namespace BlockSyncer

/-- What a chunk of the heights below `stop` is turned into, without saturation. -/
theorem chunkRange_of_chunk {start stop : Nat} {chunk : List Nat} (hstop : stop ≤ u32Max)
    (h : chunk ∈ chunks 40 (List.range' start (stop - start))) :
    ∃ first len, chunk = List.range' first len ∧ 0 < len ∧ len ≤ 40 ∧ first + len ≤ u32Max ∧
      chunkRange chunk = ⟨first, first + len⟩ := by
  obtain ⟨hpos, hle⟩ := chunk_length (by decide) h
  obtain ⟨first, len, rfl, hlo, hhi⟩ := range'_of_within (chunk_within h)
  rw [List.length_range'] at hpos hle
  have hmax : first + len ≤ u32Max := by omega
  refine ⟨first, len, rfl, hpos, hle, hmax, ?_⟩
  cases len with
  | zero => omega
  | succ len =>
    simp only [List.range'_succ, chunkRange, saturatingAdd, List.length_range',
      HeightRange.mk.injEq, true_and]
    omega

theorem chunkRange_heights {start stop : Nat} {chunk : List Nat} (hstop : stop ≤ u32Max)
    (h : chunk ∈ chunks 40 (List.range' start (stop - start))) :
    (chunkRange chunk).heights = chunk := by
  obtain ⟨first, len, rfl, -, -, -, hrange⟩ := chunkRange_of_chunk hstop h
  rw [hrange, HeightRange.heights, HeightRange.len, Nat.add_sub_cancel_left]

/-- Every range fetched has between one and forty heights, and ends where its
chunk does. -/
theorem fetchRanges_len {start stop : Nat} (hstop : stop ≤ u32Max) {range : HeightRange}
    (h : range ∈ fetchRanges start stop) :
    0 < range.len ∧ range.len ≤ 40 ∧ range.start + range.len = range.stop := by
  obtain ⟨chunk, hc, rfl⟩ := List.mem_map.mp h
  obtain ⟨first, len, -, hpos, hle, -, hrange⟩ := chunkRange_of_chunk hstop hc
  rw [hrange, HeightRange.len, Nat.add_sub_cancel_left]
  exact ⟨hpos, hle, rfl⟩

theorem fetchRanges_bounds {start stop : Nat} (hstop : stop ≤ u32Max) {range : HeightRange}
    (h : range ∈ fetchRanges start stop) : start ≤ range.start ∧ range.stop ≤ stop := by
  have hlen := fetchRanges_len hstop h
  have hfirst := fetchRanges_within (h := range.start) h
    (HeightRange.mem_heights.mpr (by omega))
  have hlast := fetchRanges_within (h := range.stop - 1) h
    (HeightRange.mem_heights.mpr (by omega))
  omega

/-- Put one after the other, the ranges are the heights asked for. -/
theorem fetchRanges_heights {start stop : Nat} (hstop : stop ≤ u32Max) :
    (fetchRanges start stop).flatMap HeightRange.heights = List.range' start (stop - start) := by
  rw [fetchRanges, List.flatMap_map, List.flatMap_def, List.map_congr_left (g := id)]
  · rw [List.map_id, chunks_flatten (by decide)]
  · intro chunk hc
    exact chunkRange_heights hstop hc

theorem fetchRanges_apart {start stop : Nat} (hstop : stop ≤ u32Max) :
    (fetchRanges start stop).Pairwise (fun range later => range.stop ≤ later.start) := by
  have hsorted : ((fetchRanges start stop).flatMap HeightRange.heights).Pairwise (· < ·) := by
    rw [fetchRanges_heights hstop]
    exact List.pairwise_lt_range'
  refine ((List.pairwise_flatMap.mp hsorted).2).imp_of_mem ?_
  intro range later hr hl hbelow
  have hrange := fetchRanges_len hstop hr
  have hlater := fetchRanges_len hstop hl
  have := hbelow (range.stop - 1) (HeightRange.mem_heights.mpr (by omega)) later.start
    (HeightRange.mem_heights.mpr (by omega))
  omega

section delivered

variable {α : Type} {results : List (Except Error (List α))} {k : Nat}

theorem delivered_map_ok (groups : List (List α)) (rest : List (Except Error (List α))) :
    delivered (groups.map .ok ++ rest) = groups.flatten ++ delivered rest := by
  induction groups with
  | nil => rfl
  | cons items groups ih =>
    rw [List.map_cons, List.cons_append, delivered, ih, List.flatten_cons, List.append_assoc]

/-- The consumer gets the results up to the first failure and nothing else. -/
theorem delivered_eq {groups : List (List α)} {rest : List (Except Error (List α))}
    (hrest : ∀ items, rest.head? ≠ some (.ok items)) :
    delivered (groups.map .ok ++ rest) = groups.flatten := by
  rw [delivered_map_ok]
  cases rest with
  | nil => exact List.append_nil _
  | cons result rest =>
    cases result with
    | ok items => exact absurd rfl (hrest items)
    | error err => exact List.append_nil _

theorem delivered_drop_ok {items : List α} (h : results[k]? = some (.ok items)) :
    delivered (results.drop k) = items ++ delivered (results.drop (k + 1)) := by
  obtain ⟨hk, hitems⟩ := List.getElem?_eq_some_iff.mp h
  rw [List.drop_eq_getElem_cons hk, hitems, delivered]

theorem delivered_drop_error {err : Error} (h : results[k]? = some (.error err)) :
    delivered (results.drop k) = [] := by
  obtain ⟨hk, herr⟩ := List.getElem?_eq_some_iff.mp h
  rw [List.drop_eq_getElem_cons hk, herr, delivered]

/-- What holds of each chunk and the result of its range holds of the heights
and what is delivered of them. -/
theorem delivered_forall₂ {R : Nat → α → Prop} {ranges : List HeightRange}
    (h : List.Forall₂ (fun range result => ∀ items, result = .ok items →
      List.Forall₂ R range.heights items) ranges results) :
    ∃ left, List.Forall₂ R
      ((ranges.flatMap HeightRange.heights).take (delivered results).length)
      (delivered results) ∧
      (ranges.flatMap HeightRange.heights).length = (delivered results).length + left := by
  induction h with
  | nil => exact ⟨0, .nil, rfl⟩
  | @cons range result ranges results hitems _ ih =>
    cases result with
    | error err => exact ⟨_, .nil, (Nat.zero_add _).symm⟩
    | ok items =>
      obtain ⟨left, hpairs, hleft⟩ := ih
      have hhead := hitems items rfl
      have hlen := hhead.length_eq
      refine ⟨left, ?_, ?_⟩
      · rw [delivered, List.flatMap_cons, List.length_append, ← hlen,
          List.take_length_add_append]
        exact List.rel_append hhead hpairs
      · simp only [delivered, List.flatMap_cons, List.length_append]
        omega

end delivered

end BlockSyncer
end Watchtower.Syncer
