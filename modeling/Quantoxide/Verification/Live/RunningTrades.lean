import Quantoxide.Library.Result
import Quantoxide.Model.RunningTrades

/-! # What the table of running trades holds

The table read as a map from trades to stored trailing stoplosses, an account at a time, and
the round trip of a trailing stoploss through it. -/

namespace Quantoxide.RunningTradesTable

open Result

variable {ε : Type} {table table' : RunningTradesTable} {accountId account id tradeId : Uuid}
  {tradeIds : List Uuid} {now : ℤ} {tsl : Option TradeTrailingStoploss} {x : Option F64}
  {r : RunningTradeRow} {tryFrom : F64 → Except ε PercentageCapped}

/-- The column of a trailing stoploss. -/
def column (tsl : Option TradeTrailingStoploss) : Option F64 := tsl.map fun tsl => tsl.perc.asF64

theorem column_injective : Function.Injective column := by
  rintro (_ | ⟨⟨⟨a⟩⟩⟩) (_ | ⟨⟨⟨b⟩⟩⟩) h
  · rfl
  · cases h
  · cases h
  · obtain rfl : a = b := by simpa [column] using h
    rfl

/-- What the row of a trade stores, if there is one. -/
def stored (table : RunningTradesTable) (accountId id : Uuid) : Option (Option F64) :=
  (table.rows.find? fun r => r.key = (accountId, id)).map (·.trailingStoploss)

/-- Rows with the same key are one. -/
theorem eq_of_key (table : RunningTradesTable) {r s : RunningTradeRow} (hr : r ∈ table.rows)
    (hs : s ∈ table.rows) (h : r.key = s.key) : r = s :=
  List.inj_on_of_nodup_map table.primaryKey hr hs h

theorem stored_eq_some : table.stored accountId id = some x ↔
    ∃ r ∈ table.rows, r.key = (accountId, id) ∧ r.trailingStoploss = x := by
  unfold stored
  rw [Option.map_eq_some_iff]
  constructor
  · rintro ⟨r, hr, rfl⟩
    exact ⟨r, List.mem_of_find?_eq_some hr, by simpa using List.find?_some hr, rfl⟩
  · rintro ⟨r, hr, hkey, rfl⟩
    cases hfind : table.rows.find? fun r => r.key = (accountId, id) with
    | none => exact absurd hkey (by simpa using List.find?_eq_none.mp hfind r hr)
    | some s =>
        have hs : s.key = (accountId, id) := by simpa using List.find?_some hfind
        rw [table.eq_of_key (List.mem_of_find?_eq_some hfind) hr (hs.trans hkey.symm)]
        exact ⟨r, rfl, rfl⟩

theorem stored_eq_none :
    table.stored accountId id = none ↔ (accountId, id) ∉ table.rows.map RunningTradeRow.key := by
  simp [stored, List.find?_eq_none]

/-! ### Writes -/

/-- A row that is added was not there, and no other row changes. -/
theorem addRunningTrade_eq_ok (h : table.addRunningTrade now accountId tradeId tsl = .ok table') :
    table.stored accountId tradeId = none ∧
    table'.stored accountId tradeId = some (column tsl) ∧
    ∀ account id, (account, id) ≠ (accountId, tradeId) →
      table'.stored account id = table.stored account id := by
  unfold addRunningTrade at h
  simp only at h
  split_ifs at h with hrow
  obtain rfl := Except.ok.inj h
  refine ⟨stored_eq_none.mpr hrow.1, ?_, ?_⟩
  · exact stored_eq_some.mpr ⟨_, List.mem_append_right _ (List.mem_singleton_self _), rfl, rfl⟩
  · intro account id hne
    ext x
    simp only [stored_eq_some, List.mem_append, List.mem_singleton]
    constructor
    · rintro ⟨r, hr | rfl, hkey, hx⟩
      · exact ⟨r, hr, hkey, hx⟩
      · exact absurd hkey.symm hne
    · rintro ⟨r, hr, hkey, hx⟩
      exact ⟨r, Or.inl hr, hkey, hx⟩

theorem stored_removeRunningTrades : (table.removeRunningTrades accountId tradeIds).stored
    account id = if account = accountId ∧ id ∈ tradeIds then none else table.stored account id := by
  ext x
  split_ifs with hremoved
  · simp only [stored_eq_some, removeRunningTrades, List.mem_filter, iff_false]
    rintro ⟨r, ⟨-, hkept⟩, hkey, -⟩
    obtain ⟨rfl, rfl⟩ := Prod.mk.inj hkey
    simp [hremoved] at hkept
  · simp only [stored_eq_some, removeRunningTrades, List.mem_filter]
    constructor
    · rintro ⟨r, ⟨hr, -⟩, hkey, hx⟩
      exact ⟨r, hr, hkey, hx⟩
    · rintro ⟨r, hr, hkey, hx⟩
      obtain ⟨rfl, rfl⟩ := Prod.mk.inj hkey
      exact ⟨r, ⟨hr, by simpa [imp_iff_not_or] using hremoved⟩, rfl, hx⟩

/-! ### Reads -/

/-- `TryFrom<f64>` accepts the percentages of the column's check and keeps their value. -/
structure PercentageLaws (tryFrom : F64 → Except ε PercentageCapped) : Prop where
  accepts : ∀ x, F64.ofRat (1 / 10) ≤ x → x ≤ F64.ofRat (999 / 10) → ∃ p, tryFrom x = .ok p
  keeps : ∀ x p, tryFrom x = .ok p → p.asF64 = x

theorem mem_rowsOf : r ∈ table.rowsOf accountId ↔ r ∈ table.rows ∧ r.accountId = accountId := by
  simp [rowsOf]

theorem rowsOf_nodup (table : RunningTradesTable) (accountId : Uuid) :
    ((table.rowsOf accountId).map (·.tradeId)).Nodup := by
  have hkeys : ((table.rowsOf accountId).map RunningTradeRow.key).Nodup :=
    ((List.mergeSort_perm _ _).map _).nodup_iff.mpr
      (table.primaryKey.sublist (List.filter_sublist.map _))
  refine List.Nodup.map_on ?_ hkeys.of_map
  intro r hr s hs hid
  obtain ⟨hr, haccount⟩ := mem_rowsOf.mp hr
  obtain ⟨hs, haccount'⟩ := mem_rowsOf.mp hs
  exact table.eq_of_key hr hs (Prod.ext (haccount.trans haccount'.symm) hid)

/-- A row is filed under its trade, as it is stored. -/
theorem insertRow_eq_ok {m m' : OrdMap Uuid (Option TradeTrailingStoploss)}
    (hlaws : PercentageLaws tryFrom)
    (h : (insertRow tryFrom m r : Except (RunningTradesError ε) _) = .ok m') :
    ∃ tsl, m' = m.insert r.tradeId tsl ∧ column tsl = r.trailingStoploss := by
  unfold insertRow at h
  cases hx : r.trailingStoploss with
  | none =>
      simp only [hx, Except.ok.injEq] at h
      exact ⟨none, h.symm, rfl⟩
  | some x =>
      simp only [hx, bind_eq_ok, mapError_eq_ok, pure_eq_ok] at h
      obtain ⟨p, hp, rfl⟩ := h
      exact ⟨some ⟨p⟩, rfl, congrArg some (hlaws.keeps x p hp)⟩

/-- The map of an account holds just what its rows store. -/
theorem getRunningTradesMap_eq_ok {m : OrdMap Uuid (Option TradeTrailingStoploss)}
    (hlaws : PercentageLaws tryFrom) (h : table.getRunningTradesMap tryFrom accountId = .ok m)
    (id : Uuid) : (m.get id).map column = table.stored accountId id := by
  have hfiled : ∀ id x, (m.get id).map column = some x ↔
      ∃ r ∈ table.rowsOf accountId, r.tradeId = id ∧ r.trailingStoploss = x := by
    refine foldlM_invariant (P := fun done (m : OrdMap Uuid (Option TradeTrailingStoploss)) =>
      ∀ id x, (m.get id).map column = some x ↔
        ∃ r ∈ done, r.tradeId = id ∧ r.trailingStoploss = x) h ?_ ?_
    · intro id x
      simp [OrdMap.get, OrdMap.empty]
    · intro done r rest m m' hrows hdone hinsert id x
      obtain ⟨tsl, rfl, hcolumn⟩ := insertRow_eq_ok hlaws hinsert
      have hnodup := table.rowsOf_nodup accountId
      rw [hrows, List.map_append, List.map_cons] at hnodup
      have hnew : ∀ d ∈ done, d.tradeId ≠ r.tradeId := fun d hd heq =>
        (List.nodup_append.mp hnodup).2.2 _ (List.mem_map_of_mem hd) _ List.mem_cons_self heq
      simp only [List.mem_append, List.mem_singleton]
      by_cases hid : id = r.tradeId
      · subst hid
        rw [OrdMap.get_insert_self, Option.map_some, hcolumn, Option.some.injEq]
        constructor
        · rintro rfl
          exact ⟨r, Or.inr rfl, rfl, rfl⟩
        · rintro ⟨d, hd | rfl, heq, hx⟩
          · exact absurd heq (hnew d hd)
          · exact hx
      · rw [OrdMap.get_insert_of_ne hid, hdone]
        constructor
        · rintro ⟨d, hd, heq, hx⟩
          exact ⟨d, Or.inl hd, heq, hx⟩
        · rintro ⟨d, hd | rfl, heq, hx⟩
          · exact ⟨d, hd, heq, hx⟩
          · exact absurd heq.symm hid
  ext x
  rw [hfiled, stored_eq_some]
  constructor
  · rintro ⟨r, hr, rfl, hx⟩
    obtain ⟨hmem, rfl⟩ := mem_rowsOf.mp hr
    exact ⟨r, hmem, rfl, hx⟩
  · rintro ⟨r, hr, hkey, hx⟩
    obtain ⟨rfl, rfl⟩ := Prod.mk.inj hkey
    exact ⟨r, mem_rowsOf.mpr ⟨hr, rfl⟩, rfl, hx⟩

/-- Reading the map fails for no table. -/
theorem getRunningTradesMap_isOk (hlaws : PercentageLaws tryFrom) (table : RunningTradesTable)
    (accountId : Uuid) : ∃ m, table.getRunningTradesMap tryFrom accountId = .ok m := by
  refine foldlM_isOk (P := fun _ _ => True) trivial ?_
  intro done r rest m hrows _
  have hr : r ∈ table.rowsOf accountId := by
    rw [hrows]
    simp
  have hbounded := table.bounded r (mem_rowsOf.mp hr).1
  unfold insertRow
  cases hx : r.trailingStoploss with
  | none => exact ⟨_, rfl, trivial⟩
  | some x =>
      obtain ⟨hlo, hhi⟩ := hbounded x hx
      obtain ⟨p, hp⟩ := hlaws.accepts x hlo hhi
      exact ⟨_, by simp only [hp]; rfl, trivial⟩

end Quantoxide.RunningTradesTable
