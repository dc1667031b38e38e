import CopaNgscope.NgscopeCAHeader
import CopaNgscope.NgscopeReTx

/-! The carrier aggregation window: whether the TTIs from the computed tail to the computed
header are in the log of every cell, as the trace of `ngscope_reTx.cc` needs them to be. -/
namespace CopaNgscope
open RunInvariant RingLog CircularDistance

/-- The TTIs a cell holds, oldest first. -/
def NgscopeDciCell.ttis (cell : NgscopeDciCell) : List ℕ := cell.log.map (fun d => d.tti.toNat)

def NgscopeDciCell.oldestTti (cell : NgscopeDciCell) : ℕ := cell.ttis.headD 0

def NgscopeDciCell.newestTti (cell : NgscopeDciCell) : ℕ := cell.ttis.getLastD 0

/-- Every configured cell has logged consecutive TTIs, and two TTIs are in all logs. -/
structure LogsOverlap (q : NgscopeDciCA) : Prop where
  consecutive : ∀ cell ∈ q.cells, Consecutive maxTti cell.ttis
  overlap : ∃ t t', t ≠ t' ∧ ∀ cell ∈ q.cells, t ∈ cell.ttis ∧ t' ∈ cell.ttis

/-- Every TTI from `tail` on to `header` is in every log. -/
def WindowCovered (q : NgscopeDciCA) (tail header : ℕ) : Prop :=
  ∀ cell ∈ q.cells, ∀ t < maxTti, cdist maxTti tail t ≤ cdist maxTti tail header → t ∈ cell.ttis

/-- The numerically largest of the oldest TTIs is at most one step behind any other, going
round the circle. -/
def TailOk (q : NgscopeDciCA) : Prop :=
  ∀ m ∈ q.cells.map NgscopeDciCell.oldestTti, (∀ o ∈ q.cells.map NgscopeDciCell.oldestTti, o ≤ m) →
    ∀ o ∈ q.cells.map NgscopeDciCell.oldestTti, cdist maxTti m o ≤ 1 ∨ maxTti ≤ 2*cdist maxTti m o

/-! ### Positions seen from a base -/

/-- A cell's log as an interval of positions seen from `e`; `lo` and `hi` are positions of
TTIs it must hold. -/
structure OnArc (e lo hi : ℕ) (cell : NgscopeDciCell) : Prop where
  oldest_le : cdist maxTti e cell.oldestTti ≤ lo
  le_newest : hi ≤ cdist maxTti e cell.newestTti
  newest_lt : cdist maxTti e cell.newestTti < 2*nofLogDci
  newest_mem : cell.newestTti < maxTti
  mem_iff : ∀ t < maxTti, t ∈ cell.ttis ↔ cdist maxTti e cell.oldestTti ≤ cdist maxTti e t ∧
    cdist maxTti e t ≤ cdist maxTti e cell.newestTti

theorem NgscopeDciCell.length_ttis (cell : NgscopeDciCell) :
    cell.ttis.length = cell.nofLoggedDci := by
  rw [ttis, List.length_map, cell.length_log]

theorem NgscopeDciCell.length_ttis_le (cell : NgscopeDciCell) :
    cell.ttis.length ≤ nofLogDci := by
  rw [cell.length_ttis]
  exact cell.nofLoggedDci_le

/-- A log of consecutive TTIs with `t` in it, seen from a base 999 steps before `t`. -/
theorem NgscopeDciCell.interval (cell : NgscopeDciCell) {e t : ℕ}
    (hcons : Consecutive maxTti cell.ttis) (ht : t ∈ cell.ttis)
    (he : cdist maxTti e t = nofLogDci-1) :
    cdist maxTti e cell.oldestTti ≤ nofLogDci-1 ∧
      cdist maxTti e cell.newestTti = cdist maxTti e cell.oldestTti+cell.ttis.length-1 ∧
      cell.newestTti ∈ cell.ttis ∧
      ∀ x < maxTti, x ∈ cell.ttis ↔ cdist maxTti e cell.oldestTti ≤ cdist maxTti e x ∧
        cdist maxTti e x < cdist maxTti e cell.oldestTti+cell.ttis.length := by
  have hlen := cell.length_ttis_le
  unfold oldestTti newestTti
  cases hxs : cell.ttis with
  | nil =>
    rw [hxs] at ht
    cases ht
  | cons o xs =>
    rw [hxs] at hcons ht hlen
    obtain ⟨hle, hgt, hmem⟩ := hcons.mem_iff_of_base (k := nofLogDci-1)
      (by unfold nofLogDci at hlen ⊢; omega) (by decide) ht he
    have hlast : (o :: xs).getLastD 0 = (o :: xs)[xs.length] := by
      rw [List.getLastD_eq_getLast?, List.getLast?_eq_getElem?]
      simp
    have hdist := hcons.cdist_getElem (by unfold nofLogDci maxTti at *; omega) xs.length (by simp)
    rw [List.headD_cons, hlast]
    refine ⟨hle, ?_, List.getElem_mem _, hmem⟩
    rw [cdist_add (b := o) (by decide), hdist]
    · rfl
    · rw [hdist]
      simp only [List.length_cons] at hlen
      unfold nofLogDci maxTti at *
      omega

/-- Where the logs overlap in two TTIs there is a base from which every oldest TTI comes
before every newest one. -/
theorem LogsOverlap.exists_onArc {q : NgscopeDciCA} (h : LogsOverlap q) (hpos : 1 ≤ q.nofCell) :
    ∃ e lo hi, lo < hi ∧ ∀ cell ∈ q.cells, OnArc e lo hi cell := by
  obtain ⟨t, t', hne, hboth⟩ := h.overlap
  obtain ⟨e, _, he⟩ := exists_cdist_eq (n := maxTti) (k := nofLogDci-1) (by decide) t
  refine ⟨e, min (nofLogDci-1) (cdist maxTti e t'), max (nofLogDci-1) (cdist maxTti e t'), ?_,
    fun cell hcell => ?_⟩
  · have hcell := mem_cells_of_lt hpos
    obtain ⟨ht, ht'⟩ := hboth _ hcell
    have hlt := (h.consecutive _ hcell).lt
    have : cdist maxTti e t ≠ cdist maxTti e t' := fun heq =>
      hne (eq_of_cdist_eq (hlt t ht) (hlt t' ht') heq)
    omega
  · obtain ⟨ht, ht'⟩ := hboth cell hcell
    have hcons := h.consecutive cell hcell
    obtain ⟨hle, hnew, hmem, hiff⟩ := cell.interval hcons ht he
    have hin := (hiff t (hcons.lt t ht)).mp ht
    have hin' := (hiff t' (hcons.lt t' ht')).mp ht'
    have hlen := cell.length_ttis_le
    refine ⟨by omega, by omega, by omega, hcons.lt _ hmem, fun x hx => ?_⟩
    rw [hiff x hx, hnew]
    omega

/-- Seen from a point two logs' lengths before the base, a log lies at the same distances. -/
theorem OnArc.cdist_of_before {e lo hi s : ℕ} {cell : NgscopeDciCell} (h : OnArc e lo hi cell)
    (hse : cdist maxTti s e = 2*nofLogDci) {t : ℕ} (ht : t < maxTti) (hmem : t ∈ cell.ttis) :
    cdist maxTti s t = 2*nofLogDci+cdist maxTti e t ∧ cdist maxTti e t < 2*nofLogDci := by
  have hin := ((h.mem_iff t ht).mp hmem).2
  have hlt := h.newest_lt
  refine ⟨?_, by omega⟩
  rw [cdist_add (b := e) (by decide), hse]
  rw [hse]
  unfold nofLogDci maxTti at *
  omega

/-! ### The window -/

section
variable {q : NgscopeDciCA} {e lo hi : ℕ}

/-- The header is before every newest TTI and after every oldest one. -/
theorem header_position (harc : ∀ cell ∈ q.cells, OnArc e lo hi cell) {header : ℕ}
    (hheader : IsOldest maxTti (q.cells.map NgscopeDciCell.newestTti) header) :
    hi ≤ cdist maxTti e header ∧
      ∀ cell ∈ q.cells, cdist maxTti e header ≤ cdist maxTti e cell.newestTti := by
  obtain ⟨c, hc, hce⟩ := List.mem_map.mp hheader.1
  have hlt := (harc c hc).newest_lt
  rw [hce] at hlt
  refine ⟨by rw [← hce]; exact (harc c hc).le_newest, fun cell hcell => ?_⟩
  have hhalf := hheader.2 _ (List.mem_map_of_mem hcell)
  by_contra hgt
  have := cdist_of_lt (n := maxTti) (by decide) (Nat.lt_of_not_le hgt)
  unfold nofLogDci maxTti at *
  omega

/-- With the header oldest among the newest TTIs and the tail one past the numerically
largest oldest TTI, the window is covered exactly when that TTI is circularly latest, but for
one step. -/
theorem window_covered_iff (harc : ∀ cell ∈ q.cells, OnArc e lo hi cell) (hlohi : lo < hi)
    {header m : ℕ} (hheader : IsOldest maxTti (q.cells.map NgscopeDciCell.newestTti) header)
    (hm : m ∈ q.cells.map NgscopeDciCell.oldestTti) :
    WindowCovered q ((m+1)%maxTti) header ↔
      ∀ o ∈ q.cells.map NgscopeDciCell.oldestTti,
        cdist maxTti m o ≤ 1 ∨ maxTti ≤ 2*cdist maxTti m o := by
  have hn : 0 < maxTti := by decide
  obtain ⟨hhi, hnewest⟩ := header_position harc hheader
  obtain ⟨cm, hcm, rfl⟩ := List.mem_map.mp hm
  have hmlo := (harc cm hcm).oldest_le
  have hheaderlt := lt_of_le_of_lt (hnewest cm hcm) (harc cm hcm).newest_lt
  -- the tail lies one step after the numerically largest oldest TTI
  have hstep : cdist maxTti cm.oldestTti ((cm.oldestTti+1)%maxTti) = 1 := cdist_add_right hn _ 1
  have htail : cdist maxTti e ((cm.oldestTti+1)%maxTti) = cdist maxTti e cm.oldestTti+1 := by
    rw [cdist_add hn (by rw [hstep]; unfold nofLogDci maxTti at *; omega), hstep]
  have hspan := cdist_of_le (b := (cm.oldestTti+1)%maxTti) hn
    (show cdist maxTti e ((cm.oldestTti+1)%maxTti) ≤ cdist maxTti e header by omega)
  constructor
  · -- the tail itself must be in the log of the cell whose oldest TTI is `o`
    intro hcov o ho
    obtain ⟨c, hc, rfl⟩ := List.mem_map.mp ho
    have hin := hcov c hc _ (Nat.mod_lt _ hn) (by rw [cdist_self]; exact Nat.zero_le _)
    have hle := (((harc c hc).mem_iff _ (Nat.mod_lt _ hn)).mp hin).1
    have hclo := (harc c hc).oldest_le
    rcases Nat.lt_or_ge (cdist maxTti e c.oldestTti) (cdist maxTti e cm.oldestTti) with hlt | hge
    · have := cdist_of_lt hn hlt
      unfold nofLogDci maxTti at *
      omega
    · have := cdist_of_le hn hge
      omega
  · -- every position of the window lies between the cell's oldest and newest one
    intro hok c hc t ht hle
    have ho := hok c.oldestTti (List.mem_map_of_mem hc)
    have hclo := (harc c hc).oldest_le
    have hct := hnewest c hc
    have hpos : cdist maxTti e ((cm.oldestTti+1)%maxTti) ≤ cdist maxTti e t := by
      by_contra hlt
      have := cdist_of_lt (n := maxTti) hn (Nat.lt_of_not_le hlt)
      unfold nofLogDci maxTti at *
      omega
    have hdist := cdist_of_le hn hpos
    have hold : cdist maxTti e c.oldestTti ≤ cdist maxTti e cm.oldestTti+1 := by
      by_contra hgt
      have := cdist_of_le (n := maxTti) (a := e) (b := cm.oldestTti) (c := c.oldestTti) hn
        (by omega)
      unfold nofLogDci maxTti at *
      omega
    exact ((harc c hc).mem_iff t ht).mpr ⟨by omega, by omega⟩

end

end CopaNgscope
