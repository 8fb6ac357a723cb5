import LayeredSettings.Key

/-!
# Keys and their segments

Splitting a key and joining its segments undo each other (`Text.splitOn_joinWith`,
`ofSegments_segments`), also where segments are empty.

1. Putting a block in front of a key puts its segments in front of the key's segments
   (`segments_append_dot`). A key that starts with dots, no more of them than its base has segments,
   therefore names the same setting of the block wherever the block stands (`relative_append_dot`).
2. A key that starts with dots keeps as many segments of its base as the dots leave, and puts its
   own behind them (`relative_eq_ok_iff`, `segments_ofSegments_concat`), so that every key can be
   named from every other one and nothing above the segments kept (`relative_climbs`).
-/

namespace LayeredSettings

namespace Text

theorem splitOn_append_cons (sep : Char) (t u : Text) :
    splitOn sep (t ++ sep :: u) = splitOn sep t ++ splitOn sep u := by
  induction t with
  | nil =>
    show splitOn sep (sep :: u) = [] :: splitOn sep u
    rw [splitOn, if_pos rfl]
  | cons c rest ih =>
    rw [List.cons_append, splitOn, splitOn, ih]
    by_cases hc : c = sep
    · rw [if_pos hc, if_pos hc]
      rfl
    · rw [if_neg hc, if_neg hc]
      cases h : splitOn sep rest with
      | nil => exact absurd h (splitOn_ne_nil sep rest)
      | cons part parts => rfl

theorem splitOn_of_notMem {sep : Char} {t : Text} (h : sep ∉ t) : splitOn sep t = [t] := by
  induction t with
  | nil => rfl
  | cons c rest ih =>
    obtain ⟨hc, hrest⟩ := not_or.1 (mt List.mem_cons.2 h)
    rw [splitOn, if_neg (Ne.symm hc), ih hrest]

/-- No part of a text has the separator in it. -/
theorem notMem_of_mem_splitOn {sep : Char} {t part : Text} (h : part ∈ splitOn sep t) :
    sep ∉ part := by
  induction t generalizing part with
  | nil =>
    rw [List.mem_singleton.1 h]
    exact List.not_mem_nil
  | cons c rest ih =>
    rw [splitOn] at h
    by_cases hc : c = sep
    · rw [if_pos hc] at h
      rcases List.mem_cons.1 h with rfl | h
      · exact List.not_mem_nil
      · exact ih h
    · rw [if_neg hc] at h
      cases hparts : splitOn sep rest with
      | nil => exact absurd hparts (splitOn_ne_nil sep rest)
      | cons first parts =>
        rw [hparts] at h ih
        rcases List.mem_cons.1 h with rfl | h
        · rw [List.mem_cons, not_or]
          exact ⟨Ne.symm hc, ih List.mem_cons_self⟩
        · exact ih (List.mem_cons_of_mem _ h)

/-- Parts without the separator are found again in the joined text. -/
theorem splitOn_joinWith {sep : Char} {parts : List Text} (hne : parts ≠ [])
    (h : ∀ part ∈ parts, sep ∉ part) : splitOn sep (joinWith sep parts) = parts := by
  induction parts with
  | nil => exact absurd rfl hne
  | cons part parts ih =>
    obtain ⟨hpart, hparts⟩ := List.forall_mem_cons.1 h
    cases parts with
    | nil => exact splitOn_of_notMem hpart
    | cons next parts =>
      rw [joinWith, splitOn_append_cons, splitOn_of_notMem hpart,
        ih (List.cons_ne_nil next parts) hparts]
      rfl

theorem joinWith_append (sep : Char) {ps qs : List Text} (hp : ps ≠ []) (hq : qs ≠ []) :
    joinWith sep (ps ++ qs) = joinWith sep ps ++ sep :: joinWith sep qs := by
  obtain ⟨p, ps, rfl⟩ := List.exists_cons_of_ne_nil hp
  obtain ⟨q, qs, rfl⟩ := List.exists_cons_of_ne_nil hq
  rw [List.cons_append, joinWith_cons, joinWith_cons, joinWith_cons, List.flatMap_append,
    List.flatMap_cons]
  simp only [List.append_assoc, List.cons_append]

/-- Two parts are one that has the separator in it. -/
theorem joinWith_merge (sep : Char) (part next : Text) (parts : List Text) :
    joinWith sep (part :: next :: parts) = joinWith sep ((part ++ sep :: next) :: parts) := by
  rw [joinWith_cons, joinWith_cons, List.flatMap_cons, List.append_assoc, List.cons_append]

/-- What a part has in front of a separator goes to the part before it. -/
theorem joinWith_shift (sep : Char) (part front next : Text) (parts : List Text) :
    joinWith sep (part :: (front ++ sep :: next) :: parts) =
      (part ++ sep :: front) ++ sep :: joinWith sep (next :: parts) := by
  rw [joinWith, ← joinWith_merge, joinWith, List.append_assoc, List.cons_append]

end Text

namespace Key

variable {block base key : Text}

theorem segments_of_ne_nil (h : key ≠ []) : segments key = Text.splitOn '.' key := by
  unfold segments
  rw [if_neg h]

theorem segments_ne_nil (h : key ≠ []) : segments key ≠ [] := by
  rw [segments_of_ne_nil h]
  exact Text.splitOn_ne_nil '.' key

theorem segments_append_dot (hblock : block ≠ []) (hkey : key ≠ []) :
    segments (block ++ '.' :: key) = segments block ++ segments key := by
  rw [segments_of_ne_nil (by simp), segments_of_ne_nil hblock, segments_of_ne_nil hkey,
    Text.splitOn_append_cons]

theorem ascent_eq_zero_iff : ascent key = 0 ↔ key.head? ≠ some '.' := by
  cases key with
  | nil => simp [ascent]
  | cons c rest =>
    by_cases hc : c = '.'
    · simp [ascent, hc]
    · simp [ascent, hc]

/-- A key that does not start with a dot is the same in every value. -/
theorem relative_of_head?_ne_dot (h : key.head? ≠ some '.') (base : Text) :
    relative base key = .ok key := by
  rw [relative, if_pos (ascent_eq_zero_iff.2 h)]

theorem ofSegments_append {ps qs : List Text} (hp : ps ≠ []) (hq : qs ≠ []) :
    ofSegments (ps ++ qs) = ofSegments ps ++ '.' :: ofSegments qs :=
  Text.joinWith_append '.' hp hq

/-- A key that climbs no further than its base reaches is read inside the block of the base. -/
theorem relative_append_dot (hblock : block ≠ []) (hpos : 0 < ascent key)
    (hle : ascent key ≤ (segments base).length) :
    relative (block ++ '.' :: base) key =
      (relative base key).map fun target => block ++ '.' :: target := by
  have hbase : base ≠ [] := by
    rintro rfl
    exact absurd hle (by simpa [segments] using Nat.ne_of_gt hpos)
  have hlen : (segments block ++ segments base).length - ascent key =
      (segments block).length + ((segments base).length - ascent key) := by
    rw [List.length_append]
    omega
  unfold relative
  rw [segments_append_dot hblock hbase, if_neg (Nat.ne_of_gt hpos), if_neg (Nat.ne_of_gt hpos),
    if_neg (by rw [List.length_append]; omega), if_neg (Nat.not_lt.2 hle)]
  by_cases hdots : key.drop (ascent key) = []
  · rw [if_pos hdots, if_pos hdots]
    rfl
  · rw [if_neg hdots, if_neg hdots, hlen, List.take_length_add_append, List.append_assoc,
      ofSegments_append (segments_ne_nil hblock) (by simp), ofSegments_segments]
    rfl

/-! ## What a key that starts with dots names -/

theorem dot_notMem_of_mem_segments {segment : Text} (h : segment ∈ segments key) :
    '.' ∉ segment := by
  unfold segments at h
  split at h
  · cases h
  · exact Text.notMem_of_mem_splitOn h

/-- Dots in front of a name that starts with none are all of the ascent. -/
theorem ascent_replicate_append {name : Text} (h : name.head? ≠ some '.') (n : Nat) :
    ascent (List.replicate n '.' ++ name) = n := by
  have hname : name.takeWhile (· = '.') = [] :=
    List.length_eq_zero_iff.1 (ascent_eq_zero_iff.2 h)
  have hdots : ∀ c ∈ List.replicate n '.', (decide (c = '.')) = true := by
    intro c hc
    exact decide_eq_true (List.eq_of_mem_replicate hc)
  unfold ascent
  rw [List.takeWhile_append_of_pos hdots, hname, List.append_nil, List.length_replicate]

/-- A key that starts with dots names a target if there are no more dots than segments of the base
and something stands behind them. The target keeps the segments that the dots leave. -/
theorem relative_eq_ok_iff {target : Text} (hpos : 0 < ascent key) :
    relative base key = .ok target ↔
      ascent key ≤ (segments base).length ∧ key.drop (ascent key) ≠ [] ∧
        target = ofSegments ((segments base).take ((segments base).length - ascent key) ++
          [key.drop (ascent key)]) := by
  unfold relative
  rw [if_neg (Nat.ne_of_gt hpos)]
  by_cases hle : ascent key ≤ (segments base).length
  · rw [if_neg (Nat.not_lt.2 hle), and_iff_right hle]
    by_cases hname : key.drop (ascent key) = []
    · rw [if_pos hname]
      exact iff_of_false (fun h => by cases h) fun h => h.1 hname
    · rw [if_neg hname, and_iff_right hname, Except.ok.injEq]
      exact eq_comm
  · rw [if_pos (Nat.lt_of_not_le hle)]
    exact iff_of_false (fun h => by cases h) fun h => hle h.1

theorem segments_ofSegments_concat {ps : List Text} {name : Text} (hname : name ≠ [])
    (hps : ∀ p ∈ ps, '.' ∉ p) : segments (ofSegments (ps ++ [name])) = ps ++ segments name := by
  by_cases hnil : ps = []
  · rw [hnil]
    rfl
  · have happend : ofSegments (ps ++ [name]) = Text.joinWith '.' ps ++ '.' :: name :=
      ofSegments_append hnil (List.cons_ne_nil name [])
    rw [happend, segments_of_ne_nil (by simp), Text.splitOn_append_cons,
      Text.splitOn_joinWith hnil hps, segments_of_ne_nil hname]

/-- Segments that are joined first may be joined last. -/
theorem ofSegments_concat_ofSegments {qs : List Text} (hqs : qs ≠ []) (ps : List Text) :
    ofSegments (ps ++ [ofSegments qs]) = ofSegments (ps ++ qs) := by
  by_cases hnil : ps = []
  · rw [hnil]
    rfl
  · rw [ofSegments_append hnil (List.cons_ne_nil _ []), ofSegments_append hnil hqs]
    rfl

/-- From a segment that is not empty on, the segments of a key make a name that starts with no
dot. -/
theorem ofSegments_drop_segments {p : Nat} (hp : p < (segments key).length)
    (hsegment : (segments key)[p]? ≠ some []) :
    ofSegments ((segments key).drop p) ≠ [] ∧
      (ofSegments ((segments key).drop p)).head? ≠ some '.' := by
  rw [List.drop_eq_getElem_cons hp, ofSegments, Text.joinWith_cons]
  have hdot : '.' ∉ (segments key)[p] := dot_notMem_of_mem_segments (List.getElem_mem hp)
  rw [List.getElem?_eq_getElem hp] at hsegment
  cases hfirst : (segments key)[p] with
  | nil => exact absurd (congrArg some hfirst) hsegment
  | cons c rest =>
    refine ⟨List.cons_ne_nil _ _, ?_⟩
    intro h
    obtain rfl : c = '.' := Option.some.inj h
    rw [hfirst] at hdot
    exact hdot List.mem_cons_self

/-- Where two keys share their first `p` segments, the other segments of the one name it in the
value of the other, behind one dot for each segment of the other that is not shared. A key that
starts with dots names nothing if there are more dots than segments of the base or only dots, and
otherwise a key that has its own segments behind those that the dots leave of the base. -/
theorem relative_climbs (base : Text) :
    (∀ target p, p < (segments base).length → p < (segments target).length →
      (segments base).take p = (segments target).take p → (segments target)[p]? ≠ some [] →
      relative base (List.replicate ((segments base).length - p) '.' ++
        ofSegments ((segments target).drop p)) = .ok target) ∧
    ∀ key, 0 < ascent key →
      ((∃ target, relative base key = .ok target) ↔
        ascent key ≤ (segments base).length ∧ key.drop (ascent key) ≠ []) ∧
      ∀ target, relative base key = .ok target →
        segments target = (segments base).take ((segments base).length - ascent key) ++
          segments (key.drop (ascent key)) := by
  refine ⟨?reaches, fun key hpos => ⟨?succeeds, ?keeps⟩⟩
  case reaches =>
    intro target p hbase htarget hshared hsegment
    obtain ⟨hname, hhead⟩ := ofSegments_drop_segments htarget hsegment
    have hascent := ascent_replicate_append hhead ((segments base).length - p)
    have hcancel : (segments base).length - ((segments base).length - p) = p := by omega
    have hdrop : (segments target).drop p ≠ [] :=
      List.ne_nil_of_length_pos (by rw [List.length_drop]; omega)
    rw [relative_eq_ok_iff (by rw [hascent]; omega), hascent]
    refine ⟨Nat.sub_le _ _, ?_, ?_⟩
    · rw [List.drop_left' List.length_replicate]
      exact hname
    · rw [List.drop_left' List.length_replicate, hcancel, hshared,
        ofSegments_concat_ofSegments hdrop, List.take_append_drop, ofSegments_segments]
  case succeeds =>
    constructor
    · rintro ⟨target, h⟩
      obtain ⟨hle, hname, -⟩ := (relative_eq_ok_iff hpos).1 h
      exact ⟨hle, hname⟩
    · rintro ⟨hle, hname⟩
      exact ⟨_, (relative_eq_ok_iff hpos).2 ⟨hle, hname, rfl⟩⟩
  case keeps =>
    intro target h
    obtain ⟨-, hname, rfl⟩ := (relative_eq_ok_iff hpos).1 h
    apply segments_ofSegments_concat hname
    intro segment hsegment
    exact dot_notMem_of_mem_segments (List.mem_of_mem_take hsegment)

/-- From `.a` two dots lead to `b`, one leads to `.c`, and three lead past the root. -/
theorem relative_climbs_neighbour :
    relative ".a".toList "..b".toList = .ok "b".toList ∧
      ((∃ target, relative ".a".toList ".c.".toList = .ok target) ∧
        segments ".c.".toList = [[]] ++ ["c".toList, []]) ∧
      ¬ ∃ target, relative ".a".toList "...b".toList = .ok target := by
  obtain ⟨hreaches, hclimbs⟩ := relative_climbs ".a".toList
  have htarget : relative ".a".toList ".c.".toList = .ok ".c.".toList := rfl
  refine ⟨?_, ⟨?_, ?_⟩, ?_⟩
  · exact hreaches "b".toList 0 (by decide) (by decide) rfl (by decide)
  · exact (hclimbs ".c.".toList (by decide)).1.2 ⟨by decide, by decide⟩
  · exact (hclimbs ".c.".toList (by decide)).2 _ htarget
  · intro h
    exact absurd ((hclimbs "...b".toList (by decide)).1.1 h).1 (by decide)

end Key

end LayeredSettings
