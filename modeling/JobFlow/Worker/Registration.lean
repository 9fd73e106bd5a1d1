import JobFlow.Model.NewPool
import JobFlow.Model.System

/-!
# Which pools can register

`NewPool` makes an id of the host's name, a hyphen and the digits of the time, and the column
is a `UUID`. The fourteen and more digits at the end have no hyphens in them, so what comes
before must be groups of four hexadecimal digits that fill up the thirty-two. A year of four
digits leaves room for eighteen, which is no number of groups.
-/

namespace JobFlow.Worker.Registration

open JobFlow.Lib.Decimal
open JobFlow.Model
open JobFlow.Model.WorkerRepository

variable {n q : Nat} {cs ds rest : List Char}

/-! ## The grammar of `UUID` -/

/-- `n` bytes are read and `rest` is left. -/
def Reads (n : Nat) (cs rest : List Char) : Prop :=
  ∃ ds, uuidBytes n cs = some (ds, rest)

/-- Groups of four hexadecimal digits, with a hyphen or nothing between two of them. -/
inductive HexGroups : Nat → List Char → Prop
  | single {a b c d : Char} (hex : ∀ x ∈ [a, b, c, d], isHex x) : HexGroups 1 [a, b, c, d]
  | adjoined {a b c d : Char} {n : Nat} {cs : List Char} (hex : ∀ x ∈ [a, b, c, d], isHex x)
      (h : HexGroups n cs) : HexGroups (n + 1) (a :: b :: c :: d :: cs)
  | hyphened {a b c d : Char} {n : Nat} {cs : List Char} (hex : ∀ x ∈ [a, b, c, d], isHex x)
      (h : HexGroups n cs) : HexGroups (n + 1) (a :: b :: c :: d :: '-' :: cs)

theorem HexGroups.head (h : HexGroups n cs) : ∃ c cs', cs = c :: cs' ∧ isHex c := by
  cases h with
  | single hex => exact ⟨_, _, rfl, hex _ List.mem_cons_self⟩
  | adjoined hex _ => exact ⟨_, _, rfl, hex _ List.mem_cons_self⟩
  | hyphened hex _ => exact ⟨_, _, rfl, hex _ List.mem_cons_self⟩

theorem isHex_of_isDigit {c : Char} (h : c.isDigit) : isHex c := by
  simp only [Char.isDigit, Bool.and_eq_true, decide_eq_true_eq] at h
  simp only [isHex, Bool.or_eq_true, Bool.and_eq_true, decide_eq_true_eq]
  exact .inl (.inl h)

theorem reads_zero : Reads 0 cs rest ↔ cs = rest := by
  simp [Reads, uuidBytes]

theorem reads_succ {a b : Char} : Reads (n + 1) (a :: b :: cs) rest ↔
    (isHex a ∧ isHex b) ∧ Reads n (if n % 2 = 0 ∧ n ≠ 0 then dropHyphen cs else cs) rest := by
  unfold Reads
  rw [uuidBytes]
  by_cases h : isHex a && isHex b
  · rw [if_pos h]
    simp only [Option.map_eq_some_iff, Prod.exists, Prod.mk.injEq]
    rw [Bool.and_eq_true] at h
    constructor
    · rintro ⟨_, ds, _, hr, -, rfl⟩
      exact ⟨h, ds, hr⟩
    · rintro ⟨-, ds, hr⟩
      exact ⟨_, ds, rest, hr, rfl, rfl⟩
  · rw [if_neg h, ← Bool.and_eq_true]
    exact iff_of_false (fun ⟨_, hr⟩ => nomatch hr) fun hr => h hr.1

/-- Two bytes are a group, with a hyphen after it unless it is the last. -/
theorem reads_group : Reads (2 * q + 2) cs rest ↔ ∃ a b c d cs', cs = a :: b :: c :: d :: cs' ∧
    (∀ x ∈ [a, b, c, d], isHex x) ∧ Reads (2 * q) (if q ≠ 0 then dropHyphen cs' else cs') rest := by
  constructor
  · intro h
    match cs, h with
    | [], ⟨_, h⟩ => cases h
    | [_], ⟨_, h⟩ => cases h
    | a :: b :: cs, h =>
      obtain ⟨⟨ha, hb⟩, h⟩ := reads_succ.mp h
      rw [if_neg (by omega)] at h
      match cs, h with
      | [], ⟨_, h⟩ => cases h
      | [_], ⟨_, h⟩ => cases h
      | c :: d :: cs, h =>
        obtain ⟨⟨hc, hd⟩, h⟩ := reads_succ.mp h
        refine ⟨a, b, c, d, cs, rfl, by simp [ha, hb, hc, hd], ?_⟩
        by_cases hq : q = 0
        · simpa [hq] using h
        · rw [if_pos ⟨by omega, by omega⟩] at h
          rwa [if_pos hq]
  · rintro ⟨a, b, c, d, cs', rfl, hex, h⟩
    have hhex : ∀ x, x ∈ [a, b, c, d] → isHex x := hex
    refine reads_succ.mpr ⟨⟨hex a (by simp), hex b (by simp)⟩, ?_⟩
    rw [if_neg (by omega)]
    refine reads_succ.mpr ⟨⟨hex c (by simp), hex d (by simp)⟩, ?_⟩
    by_cases hq : q = 0
    · simpa [hq] using h
    · rw [if_pos ⟨by omega, by omega⟩]
      rwa [if_pos hq] at h

theorem not_isHex_hyphen : ¬ isHex '-' := by decide

theorem dropHyphen_of_hex (h : ∀ c ∈ cs, isHex c) : dropHyphen cs = cs := by
  unfold dropHyphen
  split
  · exact absurd (h '-' List.mem_cons_self) not_isHex_hyphen
  · rfl

/-- Digits without hyphens are read to their end exactly if there are as many as are asked for. -/
theorem reads_digits (hex : ∀ c ∈ ds, isHex c) : Reads (2 * q) ds [] ↔ ds.length = 4 * q := by
  induction q generalizing ds with
  | zero => rw [Nat.mul_zero, reads_zero, List.length_eq_zero_iff]
  | succ q ih =>
    rw [show 2 * (q + 1) = 2 * q + 2 by omega, reads_group]
    constructor
    · rintro ⟨a, b, c, d, cs, rfl, -, h⟩
      have hcs : ∀ x ∈ cs, isHex x := fun x hx => hex x (by simp [hx])
      rw [dropHyphen_of_hex hcs, ite_self, ih hcs] at h
      simp only [List.length_cons]
      omega
    · intro hlen
      match ds, hlen with
      | a :: b :: c :: d :: cs, hlen =>
        have hcs : ∀ x ∈ cs, isHex x := fun x hx => hex x (by simp [hx])
        refine ⟨a, b, c, d, cs, rfl, fun x hx => hex x ?_, ?_⟩
        · simp only [List.mem_cons] at hx ⊢
          tauto
        · rw [dropHyphen_of_hex hcs, ite_self, ih hcs]
          simp only [List.length_cons] at hlen
          omega

theorem dropHyphen_cons (c : Char) (cs : List Char) :
    dropHyphen (c :: cs) = if c = '-' then cs else c :: cs := by
  unfold dropHyphen
  split
  · next heq =>
    obtain ⟨rfl, rfl⟩ := List.cons.inj heq
    rw [if_pos rfl]
  · next hno =>
    refine (if_neg fun hc => ?_).symm
    exact hno cs (by rw [hc])

/-- A group lies before the hyphen. -/
theorem group_before_hyphen {host : List Char} {a b c d : Char}
    (h : host ++ '-' :: ds = a :: b :: c :: d :: cs) (hex : ∀ x ∈ [a, b, c, d], isHex x) :
    ∃ host', host = a :: b :: c :: d :: host' ∧ cs = host' ++ '-' :: ds := by
  match host, h with
  | [], h =>
    obtain ⟨rfl, -⟩ := List.cons.inj h
    exact absurd (hex '-' (by simp)) not_isHex_hyphen
  | [_], h =>
    obtain ⟨rfl, rfl, -⟩ := by simpa using h
    exact absurd (hex '-' (by simp)) not_isHex_hyphen
  | [_, _], h =>
    obtain ⟨rfl, rfl, rfl, -⟩ := by simpa using h
    exact absurd (hex '-' (by simp)) not_isHex_hyphen
  | [_, _, _], h =>
    obtain ⟨rfl, rfl, rfl, rfl, -⟩ := by simpa using h
    exact absurd (hex '-' (by simp)) not_isHex_hyphen
  | a' :: b' :: c' :: d' :: host', h =>
    obtain ⟨rfl, rfl, rfl, rfl, rfl⟩ := by simpa using h
    exact ⟨host', rfl, rfl⟩

/-- A hyphen that is read stands between two groups. -/
theorem reads_hyphen {host : List Char} : Reads (2 * q) (host ++ '-' :: ds) [] ↔
    ∃ m k, HexGroups m host ∧ q = m + k ∧ k ≠ 0 ∧ Reads (2 * k) ds [] := by
  induction q generalizing host with
  | zero =>
    rw [Nat.mul_zero, reads_zero]
    constructor
    · intro h
      simp at h
    · rintro ⟨m, k, -, hq, hk, -⟩
      omega
  | succ q ih =>
    rw [show 2 * (q + 1) = 2 * q + 2 by omega, reads_group]
    constructor
    · rintro ⟨a, b, c, d, cs, hcs, hex, h⟩
      obtain ⟨host, rfl, rfl⟩ := group_before_hyphen hcs hex
      by_cases hq : q = 0
      · rw [if_neg (by simp [hq]), hq, Nat.mul_zero, reads_zero] at h
        simp at h
      · rw [if_pos hq] at h
        cases host with
        | nil => exact ⟨1, q, .single hex, by omega, hq, h⟩
        | cons x host =>
          rw [List.cons_append, dropHyphen_cons] at h
          split at h
          · next hx =>
            obtain ⟨m, k, hm, hmk, hk, hds⟩ := ih.mp h
            exact ⟨m + 1, k, hx ▸ .hyphened hex hm, by omega, hk, hds⟩
          · have h : Reads (2 * q) ((x :: host) ++ '-' :: ds) [] := h
            obtain ⟨m, k, hm, hmk, hk, hds⟩ := ih.mp h
            exact ⟨m + 1, k, .adjoined hex hm, by omega, hk, hds⟩
    · rintro ⟨m, k, hm, hmk, hk, hds⟩
      cases hm with
      | single hex =>
        refine ⟨_, _, _, _, _, rfl, hex, ?_⟩
        rw [if_pos (by omega)]
        change Reads (2 * q) (dropHyphen ('-' :: ds)) []
        rw [dropHyphen_cons, if_pos rfl]
        rwa [show q = k by omega]
      | @adjoined a b c d m host hex hm =>
        refine ⟨a, b, c, d, host ++ '-' :: ds, rfl, hex, ?_⟩
        have hrest := ih.mpr ⟨m, k, hm, by omega, hk, hds⟩
        -- the next group begins with a digit, so no hyphen is skipped
        obtain ⟨x, host, rfl, hx⟩ := hm.head
        have hne : x ≠ '-' := fun hhyphen => not_isHex_hyphen (hhyphen ▸ hx)
        rw [if_pos (by omega), List.cons_append, dropHyphen_cons, if_neg hne]
        exact hrest
      | @hyphened a b c d m host hex hm =>
        refine ⟨a, b, c, d, '-' :: (host ++ '-' :: ds), rfl, hex, ?_⟩
        rw [if_pos (by omega), dropHyphen_cons, if_pos rfl]
        exact ih.mpr ⟨m, k, hm, by omega, hk, hds⟩

/-! ## What `NewPool` makes -/

/-- What is left is the end of what was read. -/
theorem reads_suffix (h : Reads n cs rest) : rest <:+ cs := by
  induction n using Nat.strongRecOn generalizing cs with
  | ind n ih =>
    match n, cs, h with
    | 0, cs, h => exact reads_zero.mp h ▸ List.suffix_refl _
    | _ + 1, [], ⟨_, h⟩ => cases h
    | _ + 1, [_], ⟨_, h⟩ => cases h
    | n + 1, a :: b :: cs, h =>
      obtain ⟨-, h⟩ := reads_succ.mp h
      have hdrop : dropHyphen cs <:+ cs := by
        cases cs with
        | nil => exact List.suffix_refl _
        | cons c cs =>
          rw [dropHyphen_cons]
          split
          · exact List.suffix_cons c cs
          · exact List.suffix_refl _
      have hrest : rest <:+ cs := by
        split at h
        · exact (ih n (by omega) h).trans hdrop
        · exact ih n (by omega) h
      exact hrest.trans ((List.suffix_cons b cs).trans (List.suffix_cons a _))

/-- A text that does not end in a brace is a `UUID` if it is read to its end. -/
theorem uuid_iff {text : String} (h : ¬ ['}'] <:+ text.toList) :
    uuid text ≠ none ↔ Reads 16 text.toList [] := by
  unfold uuid
  split
  · next cs heq =>
    rw [heq] at h ⊢
    refine iff_of_false (fun hsome => ?_) fun ⟨ds, hr⟩ => ?_
    · split at hsome
      · next ds hr => exact h ((reads_suffix ⟨ds, hr⟩).trans (List.suffix_cons _ _))
      · exact hsome rfl
    · cases cs with
      | nil => cases hr
      | cons b cs =>
        rw [uuidBytes, if_neg (by simp [isHex])] at hr
        cases hr
  · unfold Reads
    split
    · next ds hr => exact iff_of_true (by simp) ⟨ds, hr⟩
    · next hno => exact iff_of_false (fun hsome => hsome rfl) fun ⟨ds, hr⟩ => hno ds hr

/-- Heartbeats of the pool make a row, whatever the table holds; it is in the list of workers
from then on, and the increments of the pool count in it. -/
def Registers (p : Pool) : Prop :=
  ∀ t now status, ∃ key t' row, uuid p.id = some key ∧
    heartbeat t now p.id p.hostname status = .ok t' ∧ t' key = some row ∧
    row.hostname = p.hostname ∧ row.status = status ∧
    ∀ now' failed, ∃ t'' row', incrementProcessed t' now' p.id failed = .ok t'' ∧
      t'' key = some row' ∧
      row'.jobsProcessed = row.jobsProcessed + (if failed then 0 else 1) ∧
      row'.jobsFailed = row.jobsFailed + (if failed then 1 else 0)

theorem registers_iff_uuid (p : Pool) : Registers p ↔ uuid p.id ≠ none := by
  constructor
  · intro h
    obtain ⟨key, t', row, hkey, -⟩ := h (fun _ => none) 0 "online"
    rw [hkey]
    simp
  · intro h t now status
    obtain ⟨key, hkey⟩ := Option.ne_none_iff_exists'.mp h
    obtain ⟨t', row, hbeat, hrow, hhost, hstatus, -⟩ :=
      heartbeat_spec hkey t now p.hostname status
    refine ⟨key, t', row, hkey, hbeat, hrow, hhost, hstatus, fun now' failed => ?_⟩
    obtain ⟨t'', hincr, -, hcount, -⟩ := incrementProcessed_spec hkey t' now' failed
    obtain ⟨row', hrow', hprocessed, hfailed⟩ := hcount row hrow
    exact ⟨t'', row', hincr, hrow', hprocessed, hfailed⟩

/-- The year is written with digits only, and with the digits of the name, which are groups
of four, and the ten after the year there are thirty-two. -/
def Fits (hostname : String) (now : DateTime) : Prop :=
  0 ≤ now.year ∧ ∃ m, HexGroups m hostname.toList ∧
    4 * m + (appendInt now.year 4).length + 10 = 32

theorem reads_format (now : DateTime) (k : Nat) (hk : k ≠ 0) :
    Reads (2 * k) now.format [] ↔ 0 ≤ now.year ∧ (appendInt now.year 4).length + 10 = 4 * k := by
  obtain ⟨ds, hformat, hlen, hds⟩ := now.format_eq
  by_cases hyear : 0 ≤ now.year
  · have hhex : ∀ c ∈ now.format, isHex c := by
      intro c hc
      rw [hformat, appendInt, if_neg (by omega)] at hc
      rcases List.mem_append.mp hc with hc | hc
      · exact isHex_of_isDigit (isDigit_of_mem_padded hc)
      · exact isHex_of_isDigit (hds c hc)
    rw [reads_digits hhex, hformat, List.length_append, hlen, and_iff_right hyear]
  · refine iff_of_false (fun h => ?_) fun h => hyear h.1
    obtain ⟨j, rfl⟩ := Nat.exists_eq_succ_of_ne_zero hk
    rw [show 2 * j.succ = 2 * j + 2 by omega, reads_group, hformat, appendInt,
      if_pos (by omega)] at h
    obtain ⟨a, b, c, d, cs, heq, hex, -⟩ := h
    obtain ⟨rfl, -⟩ := List.cons.inj heq
    exact not_isHex_hyphen (hex '-' List.mem_cons_self)

/-- For every name of a host and every time of the start, the pool that gets its id from
`NewPool` registers exactly if name and time fit. -/
theorem registers_iff (queues : List String) (hostname : String) (now : DateTime) :
    Registers (newPool "" queues hostname now) ↔ Fits hostname now := by
  have hid : (newPool "" queues hostname now).id.toList =
      hostname.toList ++ '-' :: now.format := by
    simp [newPool]
  have hend : ¬ ['}'] <:+ (newPool "" queues hostname now).id.toList := by
    obtain ⟨ds, hformat, hlen, hds⟩ := now.format_eq
    intro hsuffix
    rw [hid, hformat] at hsuffix
    have hlast : ds <:+ hostname.toList ++ '-' :: (appendInt now.year 4 ++ ds) :=
      (List.suffix_append _ ds).trans ((List.suffix_cons '-' _).trans (List.suffix_append _ _))
    have hds' := List.suffix_of_suffix_length_le hsuffix hlast (by rw [hlen]; decide)
    exact absurd (hds _ (hds'.subset List.mem_cons_self)) (by decide)
  rw [registers_iff_uuid, uuid_iff hend, hid, show 16 = 2 * 8 by rfl, reads_hyphen]
  constructor
  · rintro ⟨m, k, hm, hmk, hk, hds⟩
    obtain ⟨hyear, hlen⟩ := (reads_format now k hk).mp hds
    exact ⟨hyear, m, hm, by omega⟩
  · rintro ⟨hyear, m, hm, hlen⟩
    obtain ⟨k, hk⟩ : ∃ k, (appendInt now.year 4).length + 10 = 4 * k := ⟨8 - m, by omega⟩
    exact ⟨m, k, hm, by omega, by omega, (reads_format now k (by omega)).mpr ⟨hyear, hk⟩⟩

/-- No start before the year 100000 leaves a number of digits that the groups fill up. -/
theorem not_fits_of_year_lt (hostname : String) {now : DateTime} (h : now.year < 100000) :
    ¬ Fits hostname now := by
  rintro ⟨hyear, m, -, hlen⟩
  obtain ⟨y, hy⟩ := Int.eq_ofNat_of_zero_le hyear
  rw [hy, appendInt_natCast, length_padded] at hlen
  have hdigits : (Nat.toDigits 10 y).length ≤ 5 :=
    (Nat.length_toDigits_le_iff (by decide) (by decide)).mpr (by omega)
  omega

/-- The pool of a host `worker-1` that is started in 2026. -/
theorem unregistered :
    ¬ ∀ queues hostname now, Registers (newPool "" queues hostname now) := by
  intro hall
  have h := hall ["default"] "worker-1"
    ⟨2026, 1, 2, 3, 4, 5, by decide, by decide, by decide, by decide, by decide⟩
  exact (registers_iff_uuid _).mp h (by decide)

/-- A pool whose id is no `UUID` leaves the world as it is with every heartbeat and with
every increment. -/
theorem exec_refused {p : Pool} (h : uuid p.id = none) (w : World) (e : Env) :
    (∀ status, exec w e (.heartbeat p.id p.hostname status) = some (w, .err .constraint)) ∧
    ∀ failed, exec w e (.incrementProcessed p.id failed) = some (w, .err .constraint) := by
  obtain ⟨hbeat, hincr⟩ := statements_refused h w.workers w.clock
  constructor
  · intro status
    simp only [exec, hbeat, onWorkers]
  · intro failed
    simp only [exec, hincr, onWorkers]

end JobFlow.Worker.Registration
