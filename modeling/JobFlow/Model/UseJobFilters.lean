import JobFlow.Lib.Paging
import JobFlow.Lib.Transition
import JobFlow.Model.Job
import Mathlib.Data.List.Infix

/-!
# The hook `useJobFilters` and the controls of `JobTable`

The jobs that match the filters, sorted and cut into pages, and the changes of the filters
that a rendered table offers.
-/

namespace JobFlow.Model.UseJobFilters

open JobFlow.Lib.Transition

/-- What the engine does with strings. `localeCompare` depends on the locale; it orders all
strings consistently. -/
structure Strings where
  trim : String → String
  toLowerCase : String → String
  localeCompare : String → String → Int
  total : ∀ a b, localeCompare a b ≤ 0 ∨ localeCompare b a ≤ 0
  trans : ∀ a b c, localeCompare a b ≤ 0 → localeCompare b c ≤ 0 → localeCompare a c ≤ 0

structure Filters where
  query : String
  status : String
  queue : String
  sort : String
  pageSize : Nat
  page : Int
  deriving DecidableEq

/-- The first value of `useState`. -/
def Filters.initial : Filters := ⟨"", "all", "all", "created_desc", 10, 1⟩

/-- `includes` of a string. -/
def includes (text part : String) : Bool := part.toList <:+: text.toList

/-- `slice` of an array; a negative position counts from the end. -/
def slice {α : Type} (l : List α) (start stop : Int) : List α :=
  let position (i : Int) : Nat := (if i < 0 then max (l.length + i) 0 else min i l.length).toNat
  (l.drop (position start)).take (position stop - position start)

/-- `new Date(job.created_at)`, in milliseconds. -/
def createdAt (job : Job) : Int := job.createdAt / 1000

/-- `Math.max(1, Math.ceil(length / pageSize))`. -/
def countPages (length pageSize : Nat) : Nat := max 1 ⌈(length : ℚ) / pageSize⌉₊

/-- The jobs of a page of the sorted list. -/
def pageOf (sortedJobs : List Job) (pageSize : Nat) (page : Int) : List Job :=
  let start := (page - 1) * pageSize
  slice sortedJobs start (start + pageSize)

section

variable (strings : Strings)

def searchable (job : Job) : String :=
  strings.toLowerCase (job.jobType ++ " " ++ job.queueName ++ " " ++ job.status.text)

def isMatch (filters : Filters) (job : Job) : Bool :=
  let query := strings.toLowerCase (strings.trim filters.query)
  let matchesStatus := filters.status = "all" ∨ job.status.text = filters.status
  let matchesQueue := filters.queue = "all" ∨ job.queueName = filters.queue
  matchesStatus ∧ matchesQueue ∧ (query = "" ∨ includes (searchable strings job) query)

/-- The function that `sort` is given. -/
def comparator (sort : String) (a b : Job) : Int :=
  if sort = "priority_desc" then b.priority - a.priority
  else if sort = "attempts_desc" then b.attempts - a.attempts
  else if sort = "status_asc" then strings.localeCompare a.status.text b.status.text
  else createdAt b - createdAt a

/-- The order in which `sort`, which is stable, puts two jobs. -/
def Before (sort : String) (a b : Job) : Prop := comparator strings sort a b ≤ 0

instance (sort : String) : DecidableRel (Before strings sort) := fun a b =>
  inferInstanceAs (Decidable (comparator strings sort a b ≤ 0))

def sortJobs (jobs : List Job) (filters : Filters) : List Job :=
  (jobs.filter (isMatch strings filters)).insertionSort (Before strings filters.sort)

/-- What the hook returns, its function aside. -/
structure View where
  filters : Filters
  filteredJobs : List Job
  allFilteredJobs : List Job
  pageCount : Nat

def useJobFilters (jobs : List Job) (filters : Filters) : View :=
  let sortedJobs := sortJobs strings jobs filters
  let pageCount := countPages sortedJobs.length filters.pageSize
  let page := min filters.page pageCount
  { filters := { filters with page := page }
    filteredJobs := pageOf sortedJobs filters.pageSize page
    allFilteredJobs := sortedJobs
    pageCount := pageCount }

end

/-- A page of zero becomes the first. -/
def updateFilters (nextFilters : Filters) : Filters :=
  { nextFilters with page := if nextFilters.page = 0 then 1 else nextFilters.page }

def statusOptions : List String :=
  ["all", "queued", "running", "completed", "retrying", "failed", "dead_letter", "cancelled"]

def queueOptions : List String := ["all", "emails", "images", "webhooks", "reports", "default"]

def sortOptions : List String := ["created_desc", "priority_desc", "attempts_desc", "status_asc"]

def pageSizeOptions : List Nat := [10, 25, 50]

/-- The controls of the table. -/
inductive Control where
  | query (text : String)
  | status (option : String)
  | queue (option : String)
  | sort (option : String)
  | pageSize (option : Nat)
  | previous
  | next

/-- What a control of a rendered table passes to `onFiltersChange`, if it is there. -/
def View.change (v : View) : Control → Option Filters
  | .query text => some { v.filters with query := text }
  | .status option =>
    if option ∈ statusOptions then some { v.filters with status := option } else none
  | .queue option => if option ∈ queueOptions then some { v.filters with queue := option } else none
  | .sort option => if option ∈ sortOptions then some { v.filters with sort := option } else none
  | .pageSize option =>
    if option ∈ pageSizeOptions then some { v.filters with pageSize := option, page := 1 } else none
  | .previous =>
    if v.filters.page ≤ 1 then none else some { v.filters with page := v.filters.page - 1 }
  | .next =>
    if v.filters.page ≥ v.pageCount then none
    else some { v.filters with page := v.filters.page + 1 }

/-- The jobs that the table is given, the filters and what was rendered, latest first. -/
structure Table where
  jobs : List Job
  filters : Filters := .initial
  rendered : List View := []

inductive Input where
  /-- Another list of jobs was loaded. -/
  | jobs (jobs : List Job)
  | render
  /-- A control of a table that was rendered, the latest or one before. -/
  | control (view : Nat) (c : Control)

section

variable (strings : Strings)

def Table.turn (t : Table) : Input → Option Table
  | .jobs jobs => some { t with jobs := jobs }
  | .render =>
    some { t with rendered := useJobFilters strings t.jobs t.filters :: t.rendered }
  | .control n c => do
    let v ← t.rendered[n]?
    let nextFilters ← v.change c
    return { t with filters := updateFilters nextFilters }

/-- The table as a machine. A turn shows what is rendered. -/
def step : Machine Table Input (Option View) :=
  fun t l => (t.turn strings l).map fun t' => (t', t'.rendered.head?)

end

end JobFlow.Model.UseJobFilters
