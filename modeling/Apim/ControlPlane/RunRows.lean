import Apim.ControlPlane.Telemetry
import Apim.DataPlane.InstanceTelemetry

/-!
# The rows of one run

What the aggregator makes of the reports of one run of an instance. The row of a cell is the last
value a report has said of it, whether it is still buffered or stored (`view_accept`), and a flush
stores what there is (`view_flush`).
-/

namespace Apim.Telemetry
open Overlay

structure Reporter where
  environment : String
  instanceId : String
  runId : String
  own : runId ≠ OVERFLOW_RUN

def rowKey (r : Reporter) (c : Cell) : RowKey :=
  ⟨⟨r.environment, r.instanceId, c.1, c.2.resourceId, c.2.subscriptionId, c.2.outcome, c.2.status⟩,
    r.runId⟩

/-! ### Texts of keys -/

theorem append_bar_inj {as bs xs ys : List Char} (ha : '|' ∉ as) (hb : '|' ∉ bs)
    (h : as ++ '|' :: xs = bs ++ '|' :: ys) : as = bs ∧ xs = ys := by
  induction as generalizing bs with
  | nil =>
    cases bs with
    | nil => exact ⟨rfl, List.tail_eq_of_cons_eq h⟩
    | cons b bs => exact absurd (List.head_eq_of_cons_eq h ▸ List.mem_cons_self) hb
  | cons a as ih =>
    cases bs with
    | nil => exact absurd (List.head_eq_of_cons_eq h ▸ List.mem_cons_self) ha
    | cons b bs =>
      obtain ⟨rfl, hrest⟩ := List.cons_eq_cons.mp h
      obtain ⟨rfl, hxs⟩ := ih (fun hin => ha (List.mem_cons_of_mem _ hin))
        (fun hin => hb (List.mem_cons_of_mem _ hin)) hrest
      exact ⟨rfl, hxs⟩

theorem last_part_inj {x y a b : String} (ha : '|' ∉ a.toList) (hb : '|' ∉ b.toList)
    (h : x ++ "|" ++ a = y ++ "|" ++ b) : x = y ∧ a = b := by
  have hlist := congrArg (fun text : String => text.toList.reverse) h
  simp only [String.toList_append, List.reverse_append, List.append_assoc] at hlist
  obtain ⟨hlast, hfront⟩ := append_bar_inj (by simpa using ha) (by simpa using hb) hlist
  exact ⟨String.toList_injective (List.reverse_injective hfront),
    String.toList_injective (List.reverse_injective hlast)⟩

theorem text_eq (key : RowKey) : key.text = key.series.environment ++ "|" ++ key.series.instanceId ++
    "|" ++ key.runId ++ "|" ++ key.series.windowStart ++ "|" ++ key.series.resourceId ++ "|" ++
    key.series.subscriptionId ++ "|" ++ key.series.outcome ++ "|" ++ toString key.series.status := rfl

theorem toString_plain (n : Nat) : '|' ∉ (toString n).toList := by
  rw [Nat.toString_eq_ofList_toDigits, String.toList_ofList]
  intro h
  have hdigit := Nat.isDigit_of_mem_toDigits (by decide) (by decide) h
  exact absurd hdigit (by decide)

theorem toString_injective {m n : Nat} (h : toString m = toString n) : m = n := by
  have hlist := congrArg String.toList h
  rw [Nat.toString_eq_ofList_toDigits, Nat.toString_eq_ofList_toDigits, String.toList_ofList,
    String.toList_ofList] at hlist
  have hvalue := congrArg (Nat.ofDigitChars 10 · 0) hlist
  simpa only [Nat.ofDigitChars_ten_toDigits] using hvalue

variable {r : Reporter}

theorem text_rowKey_inj {c d : Cell} (h : (rowKey r c).text = (rowKey r d).text) : c = d := by
  obtain ⟨start, name⟩ := c
  obtain ⟨start', name'⟩ := d
  obtain ⟨hresource, hsubscription, houtcome⟩ := name.plain
  obtain ⟨hresource', hsubscription', houtcome'⟩ := name'.plain
  rw [text_eq, text_eq] at h
  obtain ⟨h₁, hstatus⟩ := last_part_inj (toString_plain _) (toString_plain _) h
  obtain ⟨h₂, houtcomes⟩ := last_part_inj houtcome houtcome' h₁
  obtain ⟨h₃, hsubscriptions⟩ := last_part_inj hsubscription hsubscription' h₂
  obtain ⟨h₄, hresources⟩ := last_part_inj hresource hresource' h₃
  have hstarts : start = start' := by
    have hlist := congrArg String.toList h₄
    simp only [String.toList_append] at hlist
    exact String.toList_injective (List.append_cancel_left hlist)
  have hstatuses : name.status = name'.status := toString_injective hstatus
  cases name
  cases name'
  dsimp only [rowKey] at houtcomes hsubscriptions hresources hstatuses
  subst hstarts houtcomes hsubscriptions hresources hstatuses
  rfl

theorem rowKey_injective (r : Reporter) : Function.Injective (rowKey r) :=
  fun _ _ h => text_rowKey_inj (congrArg RowKey.text h)

/-! ### What is there of a run -/

def view (a : Aggregator) (rollup : Dict RowKey Counts) (key : RowKey) : Option Counts :=
  laidOver RowKey.text a.buffer rollup key

def Alone (r : Reporter) (a : Aggregator) : Prop :=
  ∀ window runs, a.runsSeen.lookup window = some runs → ∀ run ∈ runs, run = r.runId

structure Tidy (r : Reporter) (a : Aggregator) (rollup : Dict RowKey Counts) : Prop where
  named : ∀ text row, a.buffer.lookup text = some row → row.1.text = text
  buffered : ∀ text row, a.buffer.lookup text = some row → ∃ c, row.1 = rowKey r c
  stored : ∀ key counts, rollup.lookup key = some counts → ∃ c, key = rowKey r c
  alone : Alone r a

theorem initial_tidy (r : Reporter) : Tidy r ⟨∅, ∅, 0⟩ ∅ :=
  ⟨nofun, nofun, nofun, nofun⟩

variable {a : Aggregator} {rollup : Dict RowKey Counts}

theorem view_eq_some (h : Tidy r a rollup) {key : RowKey} {counts : Counts}
    (hview : view a rollup key = some counts) : ∃ c, key = rowKey r c := by
  unfold view laidOver at hview
  split at hview
  · rename_i row hrow
    split at hview
    · rename_i hkey
      exact hkey ▸ h.buffered _ row hrow
    · exact h.stored key counts hview
  · exact h.stored key counts hview

theorem runFor_own {cap : Nat} (hcap : 0 < cap) (h : Alone r a) (windowStart : String) :
    (runFor cap a r.instanceId windowStart r.runId).2 = r.runId ∧
      Alone r (runFor cap a r.instanceId windowStart r.runId).1 := by
  have hruns : ∀ run ∈ (a.runsSeen.lookup (r.instanceId ++ "|" ++ windowStart)).getD [],
      run = r.runId := by
    cases hlookup : a.runsSeen.lookup (r.instanceId ++ "|" ++ windowStart) with
    | none => exact fun run hrun => absurd hrun List.not_mem_nil
    | some runs => exact h _ runs hlookup
  have hinsert : ∀ runs : List String, (∀ run ∈ runs, run = r.runId) → ∀ window found,
      (a.runsSeen.insert (r.instanceId ++ "|" ++ windowStart) runs).lookup window = some found →
        ∀ run ∈ found, run = r.runId := by
    intro runs hall window found hfound
    by_cases hkey : window = r.instanceId ++ "|" ++ windowStart
    · rw [hkey, AList.lookup_insert] at hfound
      obtain rfl := Option.some.inj hfound
      exact hall
    · rw [AList.lookup_insert_ne hkey] at hfound
      exact h window found hfound
  unfold runFor
  dsimp only
  generalize hgen : (a.runsSeen.lookup (r.instanceId ++ "|" ++ windowStart)).getD [] = runs at hruns
  by_cases hcontains : runs.contains r.runId = true
  · rw [if_pos hcontains]
    exact ⟨rfl, hinsert runs hruns⟩
  · have hempty : runs = [] := by
      cases runs with
      | nil => rfl
      | cons run runs =>
        obtain rfl := hruns run List.mem_cons_self
        exact absurd (by simp) hcontains
    have hroom : ¬ cap ≤ runs.length := by
      rw [hempty]
      exact Nat.not_le.mpr hcap
    rw [if_neg hcontains, if_neg hroom]
    refine ⟨rfl, hinsert _ fun run hrun => ?_⟩
    rw [hempty] at hrun
    exact List.mem_singleton.mp hrun

theorem acceptSeries_own {environment instanceId runId windowStart : String} (a : Aggregator)
    (series : Series) (hown : runId ≠ OVERFLOW_RUN) :
    acceptSeries environment instanceId runId windowStart a series =
      { a with
        buffer := a.buffer.insert
          (RowKey.text ⟨seriesKey environment instanceId windowStart series, runId⟩)
          (⟨seriesKey environment instanceId windowStart series, runId⟩, series.counts) } := by
  unfold acceptSeries
  dsimp only
  split
  · exact if_neg hown
  · rfl

theorem view_insert (h : Tidy r a rollup) (c : Cell) (counts : Counts) :
    Tidy r { a with buffer := a.buffer.insert (rowKey r c).text (rowKey r c, counts) } rollup ∧
      ∀ key, view { a with buffer := a.buffer.insert (rowKey r c).text (rowKey r c, counts) } rollup
          key =
        if key = rowKey r c then some counts else view a rollup key := by
  have hlookup : ∀ text row,
      (a.buffer.insert (rowKey r c).text (rowKey r c, counts)).lookup text = some row →
        (text = (rowKey r c).text ∧ row = (rowKey r c, counts)) ∨
          a.buffer.lookup text = some row := by
    intro text row hrow
    by_cases htext : text = (rowKey r c).text
    · rw [htext, AList.lookup_insert] at hrow
      exact .inl ⟨htext, (Option.some.inj hrow).symm⟩
    · rw [AList.lookup_insert_ne htext] at hrow
      exact .inr hrow
  refine ⟨⟨fun text row hrow => ?_, fun text row hrow => ?_, h.stored, h.alone⟩, fun key => ?_⟩
  · rcases hlookup text row hrow with ⟨rfl, rfl⟩ | hthere
    · rfl
    · exact h.named text row hthere
  · rcases hlookup text row hrow with ⟨rfl, rfl⟩ | hthere
    · exact ⟨c, rfl⟩
    · exact h.buffered text row hthere
  · refine laidOver_insert rollup counts (fun row hrow => ?_) key
    obtain ⟨d, hd⟩ := h.buffered _ row hrow
    have htext := h.named _ row hrow
    rw [hd] at htext ⊢
    rw [text_rowKey_inj htext]

/-! ### What a report says -/

def rowsOf (r : Reporter) (windows : List Window) : List (RowKey × Counts) :=
  windows.flatMap fun window => window.series.map fun series =>
    (⟨seriesKey r.environment r.instanceId window.windowStart series, r.runId⟩, series.counts)

def said (r : Reporter) (windows : List Window) (key : RowKey) : Option Counts :=
  (upsertAll ∅ (rowsOf r windows)).lookup key

def OfCells (r : Reporter) (windows : List Window) : Prop :=
  ∀ row ∈ rowsOf r windows, ∃ c : Cell, row.1 = rowKey r c

theorem mem_rowsOf_held {t : InstanceTelemetry} {row : RowKey × Counts} :
    row ∈ rowsOf r (t.ordered.map t.windowOf) ↔
      ∃ c counts, row = (rowKey r c, counts) ∧ t.cell c = some counts := by
  simp only [rowsOf, List.mem_flatMap, List.mem_map]
  constructor
  · rintro ⟨window, ⟨start, -, rfl⟩, series, hseries, rfl⟩
    obtain ⟨entry, hentry, rfl⟩ := List.mem_map.mp hseries
    refine ⟨(start, entry.1), entry.2, ?_, ?_⟩
    · rw [counts_seriesOf]
      rfl
    · rw [← InstanceTelemetry.lookup_window]
      exact (lookup_eq_some_iff _ _ _).mpr hentry
  · rintro ⟨c, counts, rfl, hcell⟩
    have hheld : c.1 ∈ t.windows := by
      by_contra hnot
      rw [InstanceTelemetry.cell_of_notMem hnot] at hcell
      cases hcell
    rw [← InstanceTelemetry.lookup_window] at hcell
    refine ⟨t.windowOf c.1, ⟨c.1, (t.mem_ordered c.1).mpr hheld, rfl⟩, seriesOf c.2 counts,
      List.mem_map_of_mem ((lookup_eq_some_iff _ _ _).mp hcell), ?_⟩
    rw [counts_seriesOf]
    rfl

theorem nodup_rowsOf_held (r : Reporter) (t : InstanceTelemetry) :
    ((rowsOf r (t.ordered.map t.windowOf)).map (·.1)).Nodup := by
  have hkeys : (rowsOf r (t.ordered.map t.windowOf)).map (·.1) =
      (t.ordered.flatMap fun start => (t.window start).keys.map fun name =>
        ((start, name) : Cell)).map (rowKey r) := by
    rw [rowsOf, List.flatMap_map, List.map_flatMap, List.map_flatMap]
    refine List.flatMap_congr fun start _ => ?_
    rw [InstanceTelemetry.windowOf, AList.keys, List.keys, List.map_map, List.map_map, List.map_map,
      List.map_map]
    rfl
  rw [hkeys]
  refine List.Nodup.map (rowKey_injective r) (List.nodup_flatMap.mpr ⟨fun start _ => ?_, ?_⟩)
  · exact (t.window start).keys_nodup.map fun _ _ h => (Prod.mk.inj h).2
  · refine t.nodup_ordered.imp fun {a b} hne c hca hcb => ?_
    obtain ⟨_, -, rfl⟩ := List.mem_map.mp hca
    obtain ⟨_, -, hcb⟩ := List.mem_map.mp hcb
    exact hne (Prod.mk.inj hcb).1.symm

theorem said_held (r : Reporter) (t : InstanceTelemetry) (c : Cell) :
    said r (t.ordered.map t.windowOf) (rowKey r c) = t.cell c := by
  cases hcell : t.cell c with
  | some counts =>
    exact lookup_foldl_insert_of_mem ∅ (nodup_rowsOf_held r t)
      (mem_rowsOf_held.mpr ⟨c, counts, rfl, hcell⟩)
  | none =>
    refine (lookup_foldl_insert_of_notMem ∅ fun hin => ?_).trans (AList.lookup_empty _)
    obtain ⟨row, hrow, hkey⟩ := List.mem_map.mp hin
    obtain ⟨d, counts, rfl, hd⟩ := mem_rowsOf_held.mp hrow
    rw [rowKey_injective r hkey, hcell] at hd
    cases hd

theorem ofCells_held (r : Reporter) (t : InstanceTelemetry) :
    OfCells r (t.ordered.map t.windowOf) := by
  intro row hrow
  obtain ⟨c, counts, rfl, -⟩ := mem_rowsOf_held.mp hrow
  exact ⟨c, rfl⟩

/-! ### What is taken of a report -/

theorem upsertAll_append (rows : List (RowKey × Counts)) (row : RowKey × Counts) (key : RowKey) :
    (upsertAll ∅ (rows ++ [row])).lookup key =
      if key = row.1 then some row.2 else (upsertAll ∅ rows).lookup key := by
  rw [upsertAll, List.foldl_append]
  by_cases hkey : key = row.1
  · rw [if_pos hkey, hkey]
    exact AList.lookup_insert _
  · rw [if_neg hkey]
    exact AList.lookup_insert_ne hkey

theorem view_rows (h : Tidy r a rollup) (rows : List (RowKey × Counts))
    (hrows : ∀ row ∈ rows, ∃ c, row.1 = rowKey r c) :
    Tidy r { a with buffer := rows.foldl (fun b row => b.insert row.1.text row) a.buffer } rollup ∧
      ∀ key, view { a with buffer := rows.foldl (fun b row => b.insert row.1.text row) a.buffer }
          rollup key = ((upsertAll ∅ rows).lookup key).or (view a rollup key) := by
  induction rows using List.reverseRecOn with
  | nil => exact ⟨h, fun key => rfl⟩
  | append_singleton rows row ih =>
    obtain ⟨htidy, hview⟩ := ih fun row' hrow' => hrows row' (List.mem_append_left _ hrow')
    obtain ⟨key', counts⟩ := row
    obtain ⟨c, hc⟩ := hrows (key', counts) (List.mem_append_right _ List.mem_cons_self)
    dsimp only at hc
    subst hc
    obtain ⟨htidy', hview'⟩ := view_insert htidy c counts
    rw [List.foldl_append]
    refine ⟨htidy', fun key => ?_⟩
    rw [upsertAll_append]
    refine (hview' key).trans ?_
    by_cases hkey : key = rowKey r c
    · rw [if_pos hkey, if_pos hkey]
      rfl
    · rw [if_neg hkey, if_neg hkey]
      exact hview key

theorem acceptWindow_own {cap : Nat} (hcap : 0 < cap) (h : Alone r a) (window : Window) :
    ∃ a', Alone r a' ∧ a'.buffer = a.buffer ∧
      acceptWindow cap r.environment r.instanceId r.runId a window =
        { a' with
          buffer := (rowsOf r [window]).foldl (fun b row => b.insert row.1.text row) a.buffer } := by
  obtain ⟨hrun, halone⟩ := runFor_own hcap h window.windowStart
  refine ⟨_, halone, runFor_buffer _ _ _ _ _, ?_⟩
  have hfold : ∀ (series : List Series) (b : Aggregator),
      series.foldl (acceptSeries r.environment r.instanceId r.runId window.windowStart) b =
        { b with
          buffer := (series.map fun series =>
            ((⟨seriesKey r.environment r.instanceId window.windowStart series, r.runId⟩ : RowKey),
              series.counts)).foldl (fun b row => b.insert row.1.text row) b.buffer } := by
    intro series
    induction series with
    | nil => exact fun b => rfl
    | cons x series ih =>
      intro b
      rw [List.foldl_cons, acceptSeries_own b x r.own]
      exact ih _
  have hrows : rowsOf r [window] = window.series.map fun series =>
      ((⟨seriesKey r.environment r.instanceId window.windowStart series, r.runId⟩ : RowKey),
        series.counts) := List.append_nil _
  unfold acceptWindow
  dsimp only
  rw [hrun, hfold, hrows, runFor_buffer]

theorem acceptWindows_own {cap : Nat} (hcap : 0 < cap) (h : Alone r a) (windows : List Window) :
    ∃ a', Alone r a' ∧ a'.buffer = a.buffer ∧
      windows.foldl (acceptWindow cap r.environment r.instanceId r.runId) a =
        { a' with
          buffer := (rowsOf r windows).foldl (fun b row => b.insert row.1.text row) a.buffer } := by
  induction windows generalizing a with
  | nil => exact ⟨a, h, rfl, rfl⟩
  | cons window windows ih =>
    obtain ⟨a₁, halone₁, hbuffer₁, hfirst⟩ := acceptWindow_own hcap h window
    obtain ⟨a₂, halone₂, -, hrest⟩ := ih (a := acceptWindow cap r.environment r.instanceId r.runId a
      window) (hfirst ▸ halone₁)
    refine ⟨{ a₂ with buffer := a.buffer }, halone₂, rfl, ?_⟩
    have hrows : rowsOf r (window :: windows) = rowsOf r [window] ++ rowsOf r windows := by
      rw [rowsOf, rowsOf, rowsOf, List.flatMap_cons, List.flatMap_singleton]
    rw [List.foldl_cons, hrest, hfirst, hrows, List.foldl_append]

theorem view_accept {cap : Nat} (hcap : 0 < cap) (h : Tidy r a rollup) {windows : List Window}
    (hcells : OfCells r windows) (nowMs : Nat) :
    Tidy r (accept cap a r.environment r.instanceId r.runId windows nowMs).1 rollup ∧
      ∀ key, view (accept cap a r.environment r.instanceId r.runId windows nowMs).1 rollup key =
        (said r windows key).or (view a rollup key) := by
  obtain ⟨a', halone, hbuffer, haccept⟩ := acceptWindows_own hcap h.alone windows
  have htidy : Tidy r a' rollup :=
    ⟨hbuffer ▸ h.named, hbuffer ▸ h.buffered, h.stored, halone⟩
  have hrows := view_rows htidy (rowsOf r windows) hcells
  rw [hbuffer, ← haccept] at hrows
  refine ⟨hrows.1, fun key => (hrows.2 key).trans ?_⟩
  rw [said, view, view, hbuffer]

theorem view_flush (h : Tidy r a rollup) (nowMs : Nat) :
    Tidy r (flushNow a rollup nowMs false).1 (flushNow a rollup nowMs false).2 ∧
      ∀ key, (flushNow a rollup nowMs false).2.lookup key = view a rollup key := by
  have hstored : ∀ key, (flushNow a rollup nowMs false).2.lookup key = view a rollup key := by
    intro key
    have hwritten := lookup_foldl_insert_eq_laidOver rollup h.named key
    unfold flushNow
    split
    next hempty =>
      rw [List.isEmpty_iff.mp hempty] at hwritten
      exact hwritten
    next => exact hwritten
  have hbuffer := flushNow_buffer a rollup nowMs false
  refine ⟨⟨fun text row hrow => ?_, fun text row hrow => ?_, fun key counts hcounts => ?_, ?_⟩,
    hstored⟩
  · rw [hbuffer text] at hrow
    cases hrow
  · rw [hbuffer text] at hrow
    cases hrow
  · rw [hstored] at hcounts
    exact view_eq_some h hcounts
  · have hforget : ∀ b : Aggregator, b.runsSeen = a.runsSeen →
        Alone r (forgetOldRunWindows b nowMs) := by
      intro b hb window runs hruns
      unfold forgetOldRunWindows at hruns
      dsimp only at hruns
      rw [lookup_select, hb] at hruns
      exact h.alone window runs (Option.filter_eq_some_iff.mp hruns).1
    unfold flushNow
    split
    · exact hforget a rfl
    · exact hforget _ rfl

theorem view_of_flush (h : Tidy r a rollup) (nowMs : Nat) (key : RowKey) :
    view (flushNow a rollup nowMs false).1 (flushNow a rollup nowMs false).2 key =
      view a rollup key := by
  rw [view, laidOver, flushNow_buffer]
  exact (view_flush h nowMs).2 key

/-! ### The count of a run -/

def totalOf (r : Reporter) (rollup : Dict RowKey Counts) : Nat :=
  ((rollup.entries.filter fun entry =>
    decide (entry.1.series.instanceId = r.instanceId) && decide (entry.1.runId = r.runId)).map
      fun entry => entry.2.count).sum

theorem totalOf_eq (hstored : ∀ key counts, rollup.lookup key = some counts → ∃ c, key = rowKey r c)
    {recorded : List Cell}
    (h : ∀ c, ((rollup.lookup (rowKey r c)).map (·.count)).getD 0 = recorded.count c) :
    totalOf r rollup = recorded.length := by
  have hall : rollup.entries.filter (fun entry =>
      decide (entry.1.series.instanceId = r.instanceId) && decide (entry.1.runId = r.runId)) =
        rollup.entries := by
    refine List.filter_eq_self.mpr fun entry hentry => ?_
    obtain ⟨c, hc⟩ := hstored entry.1 entry.2 ((lookup_eq_some_iff _ _ _).mpr hentry)
    rw [hc]
    simp [rowKey]
  rw [totalOf, hall, ← List.length_map (rowKey r)]
  refine sum_entries_eq_length rollup (·.count) _ fun key => ?_
  by_cases hkey : ∃ c, key = rowKey r c
  · obtain ⟨c, rfl⟩ := hkey
    rw [h c, List.count_map_of_injective _ _ (rowKey_injective r)]
  · have hnone : rollup.lookup key = none := by
      cases hlookup : rollup.lookup key with
      | none => rfl
      | some counts => exact absurd (hstored key counts hlookup) hkey
    have hnot : key ∉ recorded.map (rowKey r) := fun hin => by
      obtain ⟨c, -, rfl⟩ := List.mem_map.mp hin
      exact hkey ⟨c, rfl⟩
    rw [hnone, List.count_eq_zero.mpr hnot]
    rfl

end Apim.Telemetry
