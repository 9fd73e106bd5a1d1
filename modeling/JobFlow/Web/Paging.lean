import JobFlow.Model.UseJobFilters
import Mathlib.Data.List.DropRight
import Mathlib.Data.String.Basic

/-!
# The filtered list and its pages

Filters and sorting lose no job, the pages make up the sorted list, and the page that is
shown exists, whatever was changed before and however the list has grown or shrunk.
-/

namespace JobFlow.Web.Paging

open JobFlow.Lib.Paging
open JobFlow.Lib.Transition
open JobFlow.Model
open JobFlow.Model.UseJobFilters

variable {strings : Strings} {filters : Filters} {sort : String} {a b : Job}

/-- What the filters ask of a job. -/
structure Matches (strings : Strings) (filters : Filters) (job : Job) : Prop where
  status : filters.status = "all" ∨ job.status.text = filters.status
  queue : filters.queue = "all" ∨ job.queueName = filters.queue
  query : ∃ before after, (searchable strings job).toList =
    before ++ (strings.toLowerCase (strings.trim filters.query)).toList ++ after

theorem isMatch_iff (job : Job) : isMatch strings filters job ↔ Matches strings filters job := by
  have hquery (text query : String) : (query = "" ∨ includes text query) ↔
      ∃ before after, text.toList = before ++ query.toList ++ after := by
    rw [includes, decide_eq_true_eq, List.IsInfix]
    constructor
    · rintro (rfl | ⟨before, after, h⟩)
      · exact ⟨[], text.toList, rfl⟩
      · exact ⟨before, after, h.symm⟩
    · rintro ⟨before, after, h⟩
      exact .inr ⟨before, after, h.symm⟩
  rw [isMatch, decide_eq_true_eq, hquery]
  exact ⟨fun ⟨hstatus, hqueue, h⟩ => ⟨hstatus, hqueue, h⟩, fun ⟨hstatus, hqueue, h⟩ => ⟨hstatus, hqueue, h⟩⟩

instance (job : Job) : Decidable (Matches strings filters job) :=
  decidable_of_iff _ (isMatch_iff job)

/-- The first job may stand before the second: by the chosen key, or else the newer one. -/
def InOrder (strings : Strings) (sort : String) (a b : Job) : Prop :=
  if sort = "priority_desc" then b.priority ≤ a.priority
  else if sort = "attempts_desc" then b.attempts ≤ a.attempts
  else if sort = "status_asc" then strings.localeCompare a.status.text b.status.text ≤ 0
  else createdAt b ≤ createdAt a

theorem before_iff : Before strings sort a b ↔ InOrder strings sort a b := by
  unfold Before comparator InOrder
  split_ifs
  · exact sub_nonpos
  · rw [sub_nonpos, Int.ofNat_le]
  · rfl
  · exact sub_nonpos

instance (sort : String) : DecidableRel (InOrder strings sort) := fun _ _ =>
  decidable_of_iff _ before_iff

instance (sort : String) : Std.Total (Before strings sort) where
  total a b := by
    simp only [before_iff, InOrder]
    split_ifs
    · exact le_total _ _
    · exact le_total _ _
    · exact strings.total _ _
    · exact le_total _ _

instance (sort : String) : IsTrans Job (Before strings sort) where
  trans a b c := by
    simp only [before_iff, InOrder]
    split_ifs
    · exact fun hab hbc => hbc.trans hab
    · exact fun hab hbc => hbc.trans hab
    · exact strings.trans _ _ _
    · exact fun hab hbc => hbc.trans hab

/-- Positions that are not negative are those of `drop` and `take`. -/
theorem slice_natCast {α : Type} (l : List α) (start stop : Nat) :
    slice l start stop = (l.drop start).take (stop - start) := by
  have hposition (i : Nat) :
      (if (i : Int) < 0 then max (l.length + (i : Int)) 0 else min (i : Int) l.length).toNat =
        min i l.length := by
    rw [if_neg (by omega)]
    omega
  simp only [slice, hposition]
  rcases Nat.le_total start l.length with h | h
  · rw [Nat.min_eq_left h, List.take_eq_take_iff, List.length_drop]
    omega
  · rw [Nat.min_eq_right h, List.drop_length, List.drop_of_length_le h, List.take_nil, List.take_nil]

/-- A page with its number from one is one of the library's. -/
theorem pageOf_succ (l : List Job) (size i : Nat) : pageOf l size (i + 1) = page l size i := by
  have hstart : ((i : Int) + 1 - 1) * size = (i * size : Nat) := by
    rw [Int.add_sub_cancel, Int.natCast_mul]
  have hstop : ((i * size : Nat) : Int) + size = (i * size + size : Nat) := (Int.natCast_add _ _).symm
  rw [pageOf, hstart, hstop, slice_natCast, Nat.add_sub_cancel_left, page]

theorem length_le_pages (n : Nat) {size : Nat} (h : 0 < size) : n ≤ countPages n size * size :=
  (le_ceil_mul n h).trans (Nat.mul_le_mul_right size (le_max_right _ _))

theorem one_le_countPages (n size : Nat) : 1 ≤ countPages n size := le_max_left _ _

/-- The list that a render returns has each job that matches, in the order that was chosen,
ties in the order of the given list. Its pages make it up, and one of them is shown. -/
structure Pages (strings : Strings) (jobs : List Job) (filters : Filters) (v : View) : Prop where
  perm : v.allFilteredJobs.Perm (jobs.filter fun job => Matches strings filters job)
  ordered : v.allFilteredJobs.Pairwise (InOrder strings filters.sort)
  stable : ∀ a, v.allFilteredJobs.filter (fun b => Tie (InOrder strings filters.sort) a b) =
    (jobs.filter fun job => Matches strings filters job).filter
      fun b => Tie (InOrder strings filters.sort) a b
  concat : ((List.range v.pageCount).flatMap fun i : Nat =>
    pageOf v.allFilteredJobs filters.pageSize (i + 1)) = v.allFilteredJobs
  once : jobs.Nodup → ∀ job ∈ jobs, Matches strings filters job →
    ∃! i : Nat, 1 ≤ i ∧ i ≤ v.pageCount ∧ job ∈ pageOf v.allFilteredJobs filters.pageSize i
  shown : v.filteredJobs = pageOf v.allFilteredJobs filters.pageSize v.filters.page

theorem filter_isMatch (strings : Strings) (jobs : List Job) (filters : Filters) :
    jobs.filter (isMatch strings filters) = jobs.filter fun job => Matches strings filters job :=
  List.filter_congr fun job _ => by rw [Bool.eq_iff_iff, isMatch_iff, decide_eq_true_eq]

theorem perm_sortJobs (strings : Strings) (jobs : List Job) (filters : Filters) :
    (sortJobs strings jobs filters).Perm (jobs.filter fun job => Matches strings filters job) := by
  rw [sortJobs, filter_isMatch]
  exact List.perm_insertionSort _ _

theorem stable_sortJobs (strings : Strings) (jobs : List Job) (filters : Filters) (a : Job) :
    (sortJobs strings jobs filters).filter (fun b => Tie (InOrder strings filters.sort) a b) =
      (jobs.filter fun job => Matches strings filters job).filter
        fun b => Tie (InOrder strings filters.sort) a b := by
  have htie : (fun b => decide (Tie (InOrder strings filters.sort) a b)) =
      fun b => decide (Tie (Before strings filters.sort) a b) :=
    funext fun b => decide_eq_decide.mpr (and_congr before_iff.symm before_iff.symm)
  rw [htie, sortJobs, filter_isMatch]
  exact filter_insertionSort a _

section

variable {l : List Job} {size : Nat}

theorem concat_pageOf (h : 0 < size) :
    ((List.range (countPages l.length size)).flatMap fun i : Nat => pageOf l size (i + 1)) = l := by
  simp only [pageOf_succ]
  exact flatMap_page (length_le_pages l.length h)

theorem once_pageOf (hnodup : l.Nodup) (h : 0 < size) {job : Job} (hjob : job ∈ l) :
    ∃! i : Nat, 1 ≤ i ∧ i ≤ countPages l.length size ∧ job ∈ pageOf l size i := by
  obtain ⟨i, hi, hon⟩ : ∃ i < countPages l.length size, job ∈ pageOf l size (i + 1) := by
    rw [← concat_pageOf (l := l) h] at hjob
    simpa using hjob
  refine ⟨i + 1, ⟨Nat.le_add_left 1 i, hi, hon⟩, ?_⟩
  rintro j ⟨hj, -, hon'⟩
  obtain ⟨k, rfl⟩ := Nat.exists_eq_add_of_le' hj
  rw [Nat.cast_succ, pageOf_succ] at hon'
  rw [pageOf_succ] at hon
  rw [page_unique hnodup hon' hon]

end

variable (strings) in
theorem pages_useJobFilters (jobs : List Job) (h : 0 < filters.pageSize) :
    Pages strings jobs filters (useJobFilters strings jobs filters) where
  perm := perm_sortJobs strings jobs filters
  ordered := (List.pairwise_insertionSort _ _).imp before_iff.mp
  stable := stable_sortJobs strings jobs filters
  concat := concat_pageOf h
  once hnodup job hjob hmatch := by
    have hperm := perm_sortJobs strings jobs filters
    have hmem := hperm.mem_iff.mpr (List.mem_filter.mpr ⟨hjob, decide_eq_true hmatch⟩)
    exact once_pageOf (hperm.nodup_iff.mpr (hnodup.filter _)) h hmem
  shown := rfl

/-- The page that is stored is never before the first. -/
structure Sound (t : Table) : Prop where
  stored : 1 ≤ t.filters.page
  rendered : ∀ v ∈ t.rendered, 1 ≤ v.filters.page ∧ v.filters.page ≤ v.pageCount

theorem page_useJobFilters (jobs : List Job) (h : 1 ≤ filters.page) :
    1 ≤ (useJobFilters strings jobs filters).filters.page ∧
      (useJobFilters strings jobs filters).filters.page ≤
        (useJobFilters strings jobs filters).pageCount := by
  have hone := one_le_countPages (sortJobs strings jobs filters).length filters.pageSize
  exact ⟨le_min h (by exact_mod_cast hone), min_le_right _ _⟩

/-- No control goes before the first page. -/
theorem one_le_change {v : View} {c : Control} {next : Filters} (hv : 1 ≤ v.filters.page)
    (h : v.change c = some next) : 1 ≤ (updateFilters next).page := by
  have hnext : 1 ≤ next.page := by
    cases c with
    | query text =>
      cases h
      exact hv
    | status option | queue option | sort option =>
      rw [View.change] at h
      split_ifs at h
      cases h
      exact hv
    | pageSize option =>
      rw [View.change] at h
      split_ifs at h
      cases h
      exact le_rfl
    | previous =>
      rw [View.change] at h
      split_ifs at h with hfirst
      cases h
      dsimp only
      omega
    | next =>
      rw [View.change] at h
      split_ifs at h with hlast
      cases h
      dsimp only
      omega
  rw [updateFilters]
  dsimp only
  rwa [if_neg (by omega)]

theorem sound_step {t t' : Table} {l : Input} {o : Option View} (ht : Sound t)
    (h : step strings t l = some (t', o)) : Sound t' := by
  obtain ⟨hturn, -⟩ := map_view_eq_some.mp h
  cases l with
  | jobs jobs =>
    cases hturn
    exact ⟨ht.stored, ht.rendered⟩
  | render =>
    cases hturn
    refine ⟨ht.stored, fun v hv => ?_⟩
    rcases List.mem_cons.mp hv with rfl | hv
    · exact page_useJobFilters t.jobs ht.stored
    · exact ht.rendered v hv
  | control n c =>
    simp only [Table.turn, Option.bind_eq_bind, Option.bind_eq_some_iff] at hturn
    obtain ⟨v, hv, next, hnext, heq⟩ := hturn
    cases heq
    exact ⟨one_le_change (ht.rendered v (List.mem_of_getElem? hv)).1 hnext, ht.rendered⟩

theorem sound_run {jobs : List Job} {tr : List (Option View)} {t : Table}
    (h : Run (step strings) anyStep { jobs } tr t) : Sound t := by
  refine h.invariant (I := fun _ t => Sound t) ⟨le_rfl, fun v hv => ?_⟩
    fun _ ht _ hs => sound_step ht hs
  cases hv

variable (strings) in
/-- Filtering and paging lose and repeat nothing, and the page shown is one of the pages. -/
theorem filtered_pages :
    (∀ jobs filters, 0 < filters.pageSize →
      Pages strings jobs filters (useJobFilters strings jobs filters)) ∧
    ∀ jobs tr t, Run (step strings) anyStep { jobs } tr t →
      ∀ v ∈ t.rendered, 1 ≤ v.filters.page ∧ v.filters.page ≤ v.pageCount :=
  ⟨fun jobs _ h => pages_useJobFilters strings jobs h, fun _ _ _ h => (sound_run h).rendered⟩

/-- Strings compared by their code points. -/
def codePoints : Strings where
  trim s := String.ofList ((s.toList.dropWhile Char.isWhitespace).rdropWhile Char.isWhitespace)
  toLowerCase := String.toLower
  localeCompare a b := if a < b then -1 else if a = b then 0 else 1
  total a b := by
    rcases lt_trichotomy a b with h | h | h <;> simp [h]
  trans a b c := by
    have hle : ∀ s t : String, (if s < t then (-1 : Int) else if s = t then 0 else 1) ≤ 0 ↔ s ≤ t := by
      intro s t
      rcases lt_trichotomy s t with h | rfl | h
      · simp [h, h.le]
      · simp
      · simp [h, h.ne', h.not_gt]
    rw [hle, hle, hle]
    exact le_trans

/-- A queued job. -/
def numbered (n : Nat) : Job where
  id := toString n
  userID := some "u1"
  queueName := "default"
  jobType := "report"
  payload := .null
  status := .queued
  priority := 0
  attempts := 0
  maxAttempts := 3
  errorMessage := none
  scheduledAt := none
  startedAt := none
  completedAt := none
  createdAt := 1000 * n
  updatedAt := 1000 * n

/-- Eleven jobs are shown, the next page is chosen, and all but one are gone. -/
def shrinking : List Input :=
  [.render, .control 0 .next, .render, .jobs [numbered 0], .render]

theorem shrinking_runs :
    (execute (step codePoints) { jobs := (List.range 11).map numbered } shrinking).isSome := by
  decide +kernel

theorem filtered_pages_shrinking :
    Pages codePoints [numbered 0, numbered 1] .initial
      (useJobFilters codePoints [numbered 0, numbered 1] .initial) ∧
    ∃ tr t, Run (step codePoints) anyStep { jobs := (List.range 11).map numbered } tr t ∧
      (t.rendered.map fun v => (v.filters.page, v.pageCount)) = [(1, 1), (2, 2), (1, 2)] ∧
      ∀ v ∈ t.rendered, 1 ≤ v.filters.page ∧ v.filters.page ≤ v.pageCount := by
  obtain ⟨hpages, hshown⟩ := filtered_pages codePoints
  have hrun := Run.of_outcome shrinking_runs (admitted_anyStep _ _)
  exact ⟨hpages _ _ (by decide), _, _, hrun, by decide +kernel, hshown _ _ _ hrun⟩

end JobFlow.Web.Paging
