import Mathlib.Algebra.Group.Nat.Defs
import Mathlib.Data.List.Induction
import Us2dServer.AcceptChain

/-!
# The registry of sessions

`connections` maps the id of a connection to the connection: the accept handler inserts,
`on_disconnected` erases by id.  Two things can go wrong.  The accept handler calls `start()`
before it inserts, so a connection may report its end before its entry is made, and the entry
then stays; and the id counter has 32 bits, so after 2^32 accepts a new connection can get the
id of one that is still alive.

    every report of a connection comes after its insert, at most 2^32 accepts:
      registered under its id  ↔  not yet reported            (registry_tracks_live)
    no accept takes the id of a connection that is alive:
      ids of live connections are distinct, entries are their own   (ids_unique)
-/

namespace Us2d

namespace Session

/-- The accept handler has inserted the connection into `connections`. -/
def Inserted (x : Session) : Prop := (∃ w, x.accept = .inserted w) ∨ x.accept = .returned

/-- The actions that make a connection call `on_disconnected`: a failed read, a header whose
packet is too long for the pool, and a refused allocation. -/
def EndsBy (x : Session) : Server.SessionAction → Prop
  | .header _ (some _) | .payload _ (some _) | .allocate false => True
  | .header _ none => TsMemoryPool.classOf x.conn.rentSize = none
  | _ => False

end Session

namespace Server

variable {cfg : Config} {s s' : Server} {k : Nat} {x : Session} {a : Action}

/-- The id under which a connection is, or was, or will be registered. -/
def id (s : Server) (k : Nat) : UInt32 := (s.sessions k).conn.connectionId

/-- What a step of connection `k` does to the map: nothing, its insert, or the erase that goes
with its report. -/
theorem SessionEffect.registry {b : SessionAction} (h : SessionEffect s k x b s') :
    (s'.tcp.connections = s.tcp.connections ∧ (s'.sessions k).reports = x.reports ∧
      ((s'.sessions k).Inserted ↔ x.Inserted)) ∨
    ((∃ w, x.accept = .started w) ∧ b = .insert ∧ (s'.sessions k).Inserted ∧
      (s'.sessions k).reports = x.reports ∧
      s'.tcp.connections = s.tcp.connections.insert x.conn.connectionId k) ∨
    (x.EndsBy b ∧ (s'.sessions k).accept = x.accept ∧ (s'.sessions k).reports = x.reports + 1 ∧
      s'.tcp.connections = s.tcp.connections.erase x.conn.connectionId) := by
  cases h with
  | started w hpc => exact Or.inl ⟨rfl, by simp [setSession], by simp [setSession, Session.Inserted, hpc]⟩
  | inserted w hpc =>
    exact Or.inr (Or.inl ⟨⟨w, hpc⟩, rfl, by simp [setSession, Session.Inserted], by simp [setSession], rfl⟩)
  | rearmed w hpc => exact Or.inl ⟨rfl, by simp [setSession], by simp [setSession, Session.Inserted, hpc]⟩
  | failed w e op hread hpc hgot =>
    refine Or.inr (Or.inr ⟨?_, by simp [report, setSession], by simp [report, setSession], rfl⟩)
    cases op <;> exact trivial
  | refused w hread hpc hclass =>
    exact Or.inr (Or.inr ⟨hclass, by simp [report, setSession], by simp [report, setSession], rfl⟩)
  | notGrown w size hpc =>
    exact Or.inr (Or.inr ⟨trivial, by simp [report, setSession], by simp [report, setSession], rfl⟩)
  | _ =>
    exact Or.inl ⟨rfl, by simp [rented, setSession], by simp [rented, setSession, Session.Inserted]⟩

/-! ## Ids -/

/-- The counter and the ids it has given out. -/
structure Counted (s : Server) : Prop where
  counter : s.tcp.connectionIdCounter = UInt32.ofNat (10000 + s.created)
  ids : ∀ k, k < s.created → s.id k = UInt32.ofNat (10000 + k)

theorem Counted.session {b : SessionAction} (hi : s.Counted)
    (h : SessionEffect s k (s.sessions k) b s') : s'.Counted where
  counter := by rw [h.counter, h.created, hi.counter]
  ids := by
    intro j hj
    rw [h.created] at hj
    by_cases hjk : j = k
    · rw [hjk, id, h.connectionId]
      exact hi.ids k (hjk ▸ hj)
    · rw [id, h.other hjk]
      exact hi.ids j hj

theorem Counted.getInstance (hi : s.Counted) : (s.getInstance cfg).Counted :=
  ⟨by simpa using hi.counter, by simpa [id] using hi.ids⟩

theorem Counted.step (hi : s.Counted) (h : Effect cfg s a s') : s'.Counted := by
  cases h with
  | accept w error s' hready hout h =>
    cases h with
    | created hrun =>
      refine ⟨?_, fun j hj => ?_⟩
      · show s.tcp.connectionIdCounter + 1 = _
        rw [hi.counter, ← Nat.add_assoc, UInt32.ofNat_add (10000 + s.created) 1]
        rfl
      · by_cases hjk : j = s.created
        · subst hjk
          simp [id, setSession, Session.new, Connection.new, hi.counter]
        · simp only [id, setSession, Function.update_of_ne hjk]
          exact hi.ids j (by simp only at hj; omega)
    | _ => exact ⟨hi.counter, hi.ids⟩
  | session k b s' hk ha h => exact hi.session h
  | header k w s' hk h => exact hi.getInstance.session h
  | main b s' h =>
    refine ⟨by rw [h.counter, h.created]; exact hi.counter, fun j hj => ?_⟩
    rw [id, h.sessions]
    exact hi.ids j (h.created ▸ hj)

/-- Fewer than 2^32 ids in a row are distinct. -/
theorem Counted.inj (hi : s.Counted) (hcreated : s.created ≤ 2 ^ 32) {j k : Nat} (hj : j < s.created)
    (hk : k < s.created) (h : s.id j = s.id k) : j = k := by
  rw [hi.ids j hj, hi.ids k hk] at h
  have := congrArg UInt32.toNat h
  simp only [UInt32.toNat_ofNat'] at this
  omega

theorem counted_init (mem : Memory) : (init mem).Counted :=
  ⟨rfl, fun k hk => absurd hk (Nat.not_lt_zero k)⟩

/-! ## The registry while every report comes after the insert -/

/-- The condition on a step: a connection is made to report only after its insert. -/
def ReportsAfterInsert (s : Server) (a : Action) : Prop :=
  ∀ k b, a = .session k b → (s.sessions k).EndsBy b → (s.sessions k).Inserted

/-- The entries are the inserted connections that have not reported, under their ids. -/
structure Tracks (s : Server) : Prop where
  early : ∀ k, k < s.created → ¬ (s.sessions k).Inserted → (s.sessions k).reports = 0
  entries : ∀ key j, s.tcp.connections.find key = some j ↔
    j < s.created ∧ s.id j = key ∧ (s.sessions j).Inserted ∧ (s.sessions j).reports = 0

theorem Tracks.session {b : SessionAction} (hi : s.Tracks) (hn : s.Counted)
    (hcreated : s.created ≤ 2 ^ 32) (hk : k < s.created)
    (hend : (s.sessions k).EndsBy b → (s.sessions k).Inserted)
    (h : SessionEffect s k (s.sessions k) b s') : s'.Tracks := by
  have hid : ∀ j, s'.id j = s.id j := by
    intro j
    by_cases hj : j = k
    · rw [hj]; exact h.connectionId
    · rw [id, h.other hj]; rfl
  have hother : ∀ j, j ≠ k → s'.sessions j = s.sessions j := fun j hj => h.other hj
  rcases h.registry with ⟨hmap, hrep, hins⟩ | ⟨⟨w, hpc⟩, -, hins, hrep, hmap⟩ | ⟨hb, hacc, hrep, hmap⟩
  · have hsame : ∀ j, ((s'.sessions j).Inserted ↔ (s.sessions j).Inserted) ∧
        (s'.sessions j).reports = (s.sessions j).reports := by
      intro j
      by_cases hj : j = k
      · rw [hj]; exact ⟨hins, hrep⟩
      · rw [hother j hj]; exact ⟨Iff.rfl, rfl⟩
    refine ⟨fun j hj hn => ?_, fun key j => ?_⟩
    · rw [(hsame j).2]
      exact hi.early j (h.created ▸ hj) (by rwa [(hsame j).1] at hn)
    · rw [hmap, h.created, hid, (hsame j).1, (hsame j).2]
      exact hi.entries key j
  · -- the insert: `k` has not reported yet
    have hnot : ¬ (s.sessions k).Inserted := by simp [Session.Inserted, hpc]
    have hrep0 := hi.early k hk hnot
    refine ⟨fun j hj hn' => ?_, fun key j => ?_⟩
    · by_cases hjk : j = k
      · rw [hjk, hrep]; exact hrep0
      · rw [hother j hjk] at hn' ⊢
        exact hi.early j (h.created ▸ hj) hn'
    · rw [hmap, TsMap.find_insert, h.created, hid]
      by_cases hjk : j = k
      · subst hjk
        constructor
        · intro hf
          split at hf
          · next hkey => exact ⟨hk, hkey.symm, hins, hrep.trans hrep0⟩
          · exact absurd ((hi.entries key j).mp hf).2.2.1 hnot
        · rintro ⟨-, hkey, -, -⟩
          exact if_pos hkey.symm
      · rw [hother j hjk]
        split
        · next hkey =>
          refine ⟨fun hf => absurd (Option.some.inj hf).symm hjk, ?_⟩
          rintro ⟨hj, hkey', -, -⟩
          exact absurd (hn.inj hcreated hj hk (hkey'.trans hkey)) hjk
        · exact hi.entries key j
  · -- the report: the entry of `k`, if any, goes, and no other
    refine ⟨fun j hj hn' => ?_, fun key j => ?_⟩
    · by_cases hjk : j = k
      · exact absurd (by simpa [Session.Inserted, hjk, hacc] using hend hb) hn'
      · rw [hother j hjk] at hn' ⊢
        exact hi.early j (h.created ▸ hj) hn'
    · rw [hmap, TsMap.find_erase, h.created, hid]
      by_cases hjk : j = k
      · subst hjk
        constructor
        · intro hf
          split at hf
          · cases hf
          · next hkey => exact absurd ((hi.entries key j).mp hf).2.1.symm hkey
        · rintro ⟨-, -, -, h0⟩
          omega
      · rw [hother j hjk]
        split
        · next hkey =>
          refine ⟨fun hf => (nomatch hf), ?_⟩
          rintro ⟨hj, hkey', -, -⟩
          exact absurd (hn.inj hcreated hj hk (hkey'.trans hkey)) hjk
        · exact hi.entries key j

theorem Tracks.getInstance (hi : s.Tracks) : (s.getInstance cfg).Tracks :=
  ⟨by simpa using hi.early, by simpa [id] using hi.entries⟩

theorem Tracks.step (hi : s.Tracks) (hn : s.Counted) (hcreated : s.created ≤ 2 ^ 32)
    (hend : ReportsAfterInsert s a) (h : Effect cfg s a s') : s'.Tracks := by
  cases h with
  | accept w error s' hready hout h =>
    cases h with
    | created hrun =>
      have hold : ∀ j, j ≠ s.created → Function.update s.sessions s.created
          (Session.new s.tcp.connectionIdCounter w) j = s.sessions j := by
        intro j hj
        exact Function.update_of_ne hj _ _
      refine ⟨fun j hj hn' => ?_, fun key j => ?_⟩
      · by_cases hjk : j = s.created
        · simp [setSession, hjk, Session.new, Session.unused]
        · simp only [setSession, hold j hjk] at hn' ⊢
          exact hi.early j (by simp only at hj; omega) hn'
      · show s.tcp.connections.find key = some j ↔ _
        rw [hi.entries key j]
        by_cases hjk : j = s.created
        · subst hjk
          constructor
          · rintro ⟨hlt, -⟩; omega
          · rintro ⟨-, -, hins, -⟩
            simp [setSession, Session.new, Session.Inserted] at hins
        · simp only [id, setSession, hold j hjk]
          constructor
          · rintro ⟨hlt, hrest⟩; exact ⟨by omega, hrest⟩
          · rintro ⟨hlt, hrest⟩; exact ⟨by omega, hrest⟩
    | _ => exact ⟨hi.early, hi.entries⟩
  | session k b s' hk ha h => exact hi.session hn hcreated hk (hend k b rfl) h
  | header k w s' hk h =>
    refine hi.getInstance.session hn.getInstance (by simpa using hcreated) hk ?_ h
    simpa using hend k (.header w none) rfl
  | main b s' h =>
    refine ⟨?_, ?_⟩
    · rw [h.sessions, h.created]; exact hi.early
    · simp only [id, h.sessions, h.created, h.connections]; exact hi.entries

theorem tracks_init (mem : Memory) : (init mem).Tracks where
  early := fun k hk => absurd hk (Nat.not_lt_zero k)
  entries := fun key j => by simp [init, Tcp.start, Tcp.init, Tcp.asyncAccept, TsMap.find, TsMap.empty]

theorem created_le (h : Effect cfg s a s') : s.created ≤ s'.created := by
  cases h with
  | accept w error s' hready hout h => cases h <;> simp
  | session k b s' hk ha h => exact h.created.ge
  | header k w s' hk h => rw [h.created]; simp
  | main b s' h => exact h.created.ge

/-- **The registry tracks the live sessions** in every run of at most 2^32 accepts in which no
connection reports its end before it is inserted: once its accept handler has returned, a
connection is registered if and only if it has not reported, so (between its handlers) if and
only if it still reads. -/
theorem registry_tracks_live (cfg : Config) (mem : Memory) (as : List Action) (s : Server)
    (h : Transition.run (step cfg) (init mem) as = some s)
    (hend : Transition.Along (step cfg) ReportsAfterInsert (init mem) as)
    (hcreated : s.created ≤ 2 ^ 32) (k : Nat) (hk : k < s.created)
    (hreturned : (s.sessions k).accept = .returned) :
    (s.tcp.connections.find (s.id k) = some k ↔ (s.sessions k).reports = 0) ∧
      ((s.sessions k).handler = none →
        (s.tcp.connections.find (s.id k) = some k ↔ (s.sessions k).conn.read ≠ none)) := by
  have hi := run_induction_along (I := fun s => s.Counted ∧ (s.created ≤ 2 ^ 32 → s.Tracks)) h hend
    ⟨counted_init mem, fun _ => tracks_init mem⟩ fun s a s' hc hi hend h => by
      refine ⟨hi.1.step h, fun hle => ?_⟩
      have hle' := (created_le h).trans hle
      exact (hi.2 hle').step hi.1 hle' hend h
  have hiff : s.tcp.connections.find (s.id k) = some k ↔ (s.sessions k).reports = 0 := by
    rw [(hi.2 hcreated).entries]
    constructor
    · exact fun h => h.2.2.2
    · exact fun h0 => ⟨hk, rfl, Or.inr hreturned, h0⟩
  refine ⟨hiff, fun hpc => ?_⟩
  -- between its handlers a connection that has not reported has a read outstanding
  have hc := (control_of_reachable ⟨as, h⟩).session k hk
  have hone := hc.one fun w hw => by rw [hreturned] at hw; cases hw
  have hout := hc.outstanding
  simp only [Session.between, hpc] at hone
  rw [hiff]
  cases hread : (s.sessions k).conn.read with
  | none => simp only [hread, Option.isSome_none, Bool.false_eq_true, if_false] at hout; simp; omega
  | some op => simp only [hread, Option.isSome_some, if_true] at hout; simp; omega

/-- A connection is accepted, registered, and erased when its first read fails. -/
theorem registry_tracks_closed : ∃ s, Transition.run (step twoWorkers) (init fun _ _ => 0)
    [.accept 0 none, .session 0 .start, .session 0 .insert, .session 0 .rearm,
      .session 0 (.header 1 (some (.other 2)))] = some s ∧
      s.tcp.connections.find (s.id 0) ≠ some 0 := by
  have hrun : (Transition.run (step twoWorkers) (init fun _ _ => 0)
      [.accept 0 none, .session 0 .start, .session 0 .insert, .session 0 .rearm,
        .session 0 (.header 1 (some (.other 2)))]).map
        (fun s => (s.created, (s.sessions 0).accept, (s.sessions 0).reports)) =
      some (1, .returned, 1) := by decide +kernel
  have hbefore : (Transition.run (step twoWorkers) (init fun _ _ => 0)
      [.accept 0 none, .session 0 .start, .session 0 .insert, .session 0 .rearm]).map
        (fun s => (s.sessions 0).accept) = some .returned := by decide +kernel
  obtain ⟨s, hs, hfin⟩ := Option.map_eq_some_iff.mp hrun
  obtain ⟨s1, hs1, hret1⟩ := Option.map_eq_some_iff.mp hbefore
  simp only [Prod.mk.injEq] at hfin
  have halong : Transition.Along (step twoWorkers) ReportsAfterInsert (init fun _ _ => 0)
      ([.accept 0 none, .session 0 .start, .session 0 .insert, .session 0 .rearm] ++
        [.session 0 (.header 1 (some (.other 2)))]) := by
    refine Transition.along_append.mpr ⟨Transition.along_of_actions ?_, ?_⟩
    · simp [ReportsAfterInsert, Session.EndsBy]
    · intro s2 hs2
      refine ⟨?_, fun _ _ => trivial⟩
      obtain rfl : s1 = s2 := Option.some.inj (hs1.symm.trans hs2)
      rintro k b hkb -
      cases hkb
      exact Or.inr hret1
  refine ⟨s, hs, fun hf => ?_⟩
  have h0 := (registry_tracks_live twoWorkers _ _ s hs halong (by omega) 0 (by omega) hfin.2.1).1.mp hf
  omega

/-- The first read fails on another worker between `start()` and `insert`: the connection has
reported its end and stays registered. -/
theorem report_before_insert_stays : ¬ ∀ (cfg : Config) (mem : Memory) (as : List Action) (s : Server),
    Transition.run (step cfg) (init mem) as = some s → s.created ≤ 2 ^ 32 →
      ∀ k, k < s.created → (s.sessions k).accept = .returned →
        (s.tcp.connections.find (s.id k) = some k ↔ (s.sessions k).reports = 0) := by
  intro hall
  have hrun : (Transition.run (step twoWorkers) (init fun _ _ => 0)
      [.accept 0 none, .session 0 .start, .session 0 (.header 1 (some (.other 2))),
        .session 0 .insert, .session 0 .rearm]).map
        (fun s => (s.created, (s.sessions 0).accept, (s.sessions 0).reports,
          s.tcp.connections.find (s.id 0))) =
      some (1, .returned, 1, some 0) := by decide +kernel
  obtain ⟨s, hs, hfin⟩ := Option.map_eq_some_iff.mp hrun
  simp only [Prod.mk.injEq] at hfin
  obtain ⟨hcreated, hret, hrep, hfind⟩ := hfin
  have := (hall twoWorkers _ _ s hs (by omega) 0 (by omega) hret).mp hfind
  omega

/-! ## Distinct ids -/

/-- The connection object exists: the accept handler, a read or read handler, or the map holds it. -/
def Alive (s : Server) (k : Nat) : Prop :=
  k < s.created ∧ ((s.sessions k).accept ≠ .returned ∨ (s.sessions k).conn.read ≠ none ∨
    (s.sessions k).handler ≠ none ∨ s.tcp.connections.find (s.id k) = some k)

/-- The condition on a step: an accept takes no id of a connection that is alive. -/
def FreshId (s : Server) (a : Action) : Prop :=
  ∀ w, a = .accept w none → ∀ k, s.Alive k → s.id k ≠ s.tcp.connectionIdCounter

/-- Entries stand under the id of their connection, and live connections have their own ids. -/
structure OwnIds (s : Server) : Prop where
  entries : ∀ key j, s.tcp.connections.find key = some j → j < s.created ∧ s.id j = key
  unique : ∀ j k, s.Alive j → s.Alive k → s.id j = s.id k → j = k

theorem OwnIds.alive_of_entry (hi : s.OwnIds) {key : UInt32} {j : Nat}
    (h : s.tcp.connections.find key = some j) : s.Alive j := by
  obtain ⟨hj, hkey⟩ := hi.entries key j h
  exact ⟨hj, Or.inr (Or.inr (Or.inr (hkey ▸ h)))⟩

/-- Only a connection that is alive takes a step. -/
theorem SessionEffect.alive {b : SessionAction} (hk : k < s.created)
    (h : SessionEffect s k (s.sessions k) b s') : s.Alive k := by
  refine ⟨hk, ?_⟩
  cases h <;> simp [*]

theorem OwnIds.session {b : SessionAction} (hi : s.OwnIds) (hk : k < s.created)
    (h : SessionEffect s k (s.sessions k) b s') : s'.OwnIds := by
  have hid : ∀ j, s'.id j = s.id j := by
    intro j
    by_cases hj : j = k
    · rw [hj]; exact h.connectionId
    · rw [id, h.other hj]; rfl
  have hfind : ∀ key j, s'.tcp.connections.find key = some j →
      s.tcp.connections.find key = some j ∨ j = k ∧ s.id k = key := by
    intro key j hf
    rcases h.registry with ⟨hmap, -, -⟩ | ⟨-, -, -, -, hmap⟩ | ⟨-, -, -, hmap⟩
    · exact Or.inl (hmap ▸ hf)
    · rw [hmap, TsMap.find_insert] at hf
      split at hf
      · next hkey => exact Or.inr ⟨(Option.some.inj hf).symm, hkey.symm⟩
      · exact Or.inl hf
    · rw [hmap, TsMap.find_erase] at hf
      split at hf
      · cases hf
      · exact Or.inl hf
  have halive : ∀ j, s'.Alive j → s.Alive j := by
    rintro j ⟨hj, hwhy⟩
    by_cases hjk : j = k
    · exact hjk ▸ h.alive hk
    · rw [h.other hjk, hid] at hwhy
      refine ⟨h.created ▸ hj, ?_⟩
      rcases hwhy with h1 | h1 | h1 | h1
      · exact Or.inl h1
      · exact Or.inr (Or.inl h1)
      · exact Or.inr (Or.inr (Or.inl h1))
      · rcases hfind _ _ h1 with h2 | ⟨h2, -⟩
        · exact Or.inr (Or.inr (Or.inr h2))
        · exact absurd h2 hjk
  refine ⟨fun key j hf => ?_, fun i j hi' hj' hij => ?_⟩
  · rw [h.created, hid]
    rcases hfind key j hf with h1 | ⟨rfl, h1⟩
    · exact hi.entries key j h1
    · exact ⟨hk, h1⟩
  · rw [hid, hid] at hij
    exact hi.unique i j (halive i hi') (halive j hj') hij

theorem OwnIds.getInstance (hi : s.OwnIds) : (s.getInstance cfg).OwnIds :=
  ⟨by simpa [id] using hi.entries, by simpa [Alive, id] using hi.unique⟩

theorem OwnIds.step (hi : s.OwnIds) (hfresh : FreshId s a) (h : Effect cfg s a s') : s'.OwnIds := by
  cases h with
  | accept w error s' hready hout h =>
    cases h with
    | created hrun =>
      have hold : ∀ j, j ≠ s.created → Function.update s.sessions s.created
          (Session.new s.tcp.connectionIdCounter w) j = s.sessions j :=
        fun j hj => Function.update_of_ne hj _ _
      refine ⟨fun key j hf => ?_, fun i j hi' hj' hij => ?_⟩
      · obtain ⟨hj, hkey⟩ := hi.entries key j hf
        refine ⟨Nat.lt_succ_of_lt hj, ?_⟩
        simp only [id, setSession, hold j (by omega)]
        exact hkey
      · simp only [Alive, id, setSession] at hi' hj' hij
        by_cases hik : i = s.created
        · by_cases hjk : j = s.created
          · rw [hik, hjk]
          · -- the new connection is `i`, and `j` was alive before
            rw [hold j hjk] at hj' hij
            rw [hik, Function.update_self] at hij
            exact absurd hij.symm (hfresh w rfl j ⟨by omega, hj'.2⟩)
        · rw [hold i hik] at hi' hij
          by_cases hjk : j = s.created
          · rw [hjk, Function.update_self] at hij
            exact absurd hij (hfresh w rfl i ⟨by omega, hi'.2⟩)
          · rw [hold j hjk] at hj' hij
            exact hi.unique i j ⟨by omega, hi'.2⟩ ⟨by omega, hj'.2⟩ hij
    | _ => exact ⟨hi.entries, hi.unique⟩
  | session k b s' hk ha h => exact hi.session hk h
  | header k w s' hk h => exact hi.getInstance.session hk h
  | main b s' h =>
    refine ⟨?_, ?_⟩
    · simp only [id, h.sessions, h.created, h.connections]; exact hi.entries
    · simp only [Alive, id, h.sessions, h.created, h.connections]; exact hi.unique

theorem ownIds_init (mem : Memory) : (init mem).OwnIds where
  entries := fun key j h => by
    simp [init, Tcp.start, Tcp.init, Tcp.asyncAccept, TsMap.find, TsMap.empty] at h
  unique := fun j k hj => absurd hj.1 (Nat.not_lt_zero j)

/-- A connection that takes a step finds no entry of another one under its id. -/
theorem OwnIds.own_entry {b : SessionAction} (hi : s.OwnIds) (hk : k < s.created)
    (h : SessionEffect s k (s.sessions k) b s') {j : Nat}
    (hf : s.tcp.connections.find (s.id k) = some j) : j = k :=
  hi.unique j k (hi.alive_of_entry hf) (h.alive hk) (hi.entries _ j hf).2

/-- The report of a connection erases its own entry and no other. -/
theorem OwnIds.report {b : SessionAction} (hi : s.OwnIds) (hk : k < s.created)
    (h : SessionEffect s k (s.sessions k) b s')
    (hrep : (s'.sessions k).reports ≠ (s.sessions k).reports) :
    s'.tcp.connections.find (s.id k) = none ∧
      ∀ key j, j ≠ k → s.tcp.connections.find key = some j → s'.tcp.connections.find key = some j := by
  rcases h.registry with ⟨-, hsame, -⟩ | ⟨-, -, -, hsame, -⟩ | ⟨-, -, -, hmap⟩
  · exact absurd hsame hrep
  · exact absurd hsame hrep
  · rw [hmap]
    refine ⟨by simp [TsMap.find_erase, id], fun key j hjk hf => ?_⟩
    rw [TsMap.find_erase]
    split
    · next hkey =>
      have hkey' : key = s.id k := hkey
      exact absurd (hi.own_entry hk h (hkey' ▸ hf)) hjk
    · exact hf

/-- **Session ids are unique among the live connections** in every run whose accepts take no id
of a connection that is alive: ids are distinct, an insert replaces no entry of another
connection, and a report erases the entry of its own connection only. -/
theorem ids_unique (cfg : Config) (mem : Memory) (as : List Action) (s : Server)
    (h : Transition.run (step cfg) (init mem) as = some s)
    (hfresh : Transition.Along (step cfg) FreshId (init mem) as) :
    (∀ j k, s.Alive j → s.Alive k → s.id j = s.id k → j = k) ∧
    (∀ k s', step cfg s (.session k .insert) = some s' →
      ∀ j, s.tcp.connections.find (s.id k) = some j → j = k) ∧
    (∀ k b s', step cfg s (.session k b) = some s' →
      (s'.sessions k).reports ≠ (s.sessions k).reports →
      s'.tcp.connections.find (s.id k) = none ∧
        ∀ key j, j ≠ k → s.tcp.connections.find key = some j →
          s'.tcp.connections.find key = some j) := by
  have hi := run_induction_along h hfresh (ownIds_init mem) fun s a s' _ hi hC h => hi.step hC h
  have hc := control_of_reachable ⟨as, h⟩
  refine ⟨hi.unique, fun k s' hs j hf => ?_, fun k b s' hs hrep => ?_⟩
  · cases step_effect hc hs with
    | session k b s' hk ha heff => exact hi.own_entry hk heff hf
  · cases step_effect hc hs with
    | session k b s' hk ha heff => exact hi.report hk heff hrep
    | header k w s' hk heff =>
      have hi' : (s.getInstance cfg).OwnIds := hi.getInstance
      simpa [id] using hi'.report hk heff (by simpa using hrep)

/-- The condition holds along every run of fewer than 2^32 accepts. -/
theorem freshId_along {mem : Memory} {as : List Action}
    (h : Transition.run (step cfg) (init mem) as = some s) (hcreated : s.created < 2 ^ 32) :
    Transition.Along (step cfg) FreshId (init mem) as := by
  induction as using List.reverseRecOn generalizing s with
  | nil => trivial
  | append_singleton as a ih =>
    obtain ⟨s1, h1, h2⟩ := Transition.run_append.mp h
    obtain ⟨s2, h3, h4⟩ := Transition.run_cons.mp h2
    obtain rfl := Option.some.inj h4
    have hle := created_le (step_effect (control_of_reachable ⟨as, h1⟩) h3)
    refine Transition.along_append.mpr ⟨ih h1 (by omega), fun s2 hs2 => ⟨?_, fun _ _ => trivial⟩⟩
    obtain rfl := Option.some.inj (h1.symm.trans hs2)
    have hn : s1.Counted := reachable_induction ⟨as, h1⟩ (counted_init mem) fun _ _ _ _ hi h => hi.step h
    intro w hw k hk heq
    rw [hn.ids k hk.1, hn.counter] at heq
    have := congrArg UInt32.toNat heq
    have hlt := hk.1
    simp only [UInt32.toNat_ofNat'] at this
    omega

/-- The condition in terms of lifetimes: no live connection is a multiple of 2^32 accepts old. -/
theorem freshId_iff {mem : Memory} (h : Transition.Reachable (step cfg) (init mem) s) (w : Nat) :
    FreshId s (.accept w none) ↔ ∀ k, s.Alive k → ¬ 2 ^ 32 ∣ s.created - k := by
  have hn : s.Counted := reachable_induction h (counted_init mem) fun _ _ _ _ hi h => hi.step h
  have hid : ∀ k, s.Alive k → (s.id k = s.tcp.connectionIdCounter ↔ 2 ^ 32 ∣ s.created - k) := by
    intro k hk
    have hlt := hk.1
    rw [hn.ids k hk.1, hn.counter, ← UInt32.toNat_inj, UInt32.toNat_ofNat', UInt32.toNat_ofNat']
    omega
  constructor
  · intro hfresh k hk hdvd
    exact hfresh w rfl k hk ((hid k hk).mpr hdvd)
  · rintro hall _ - k hk heq
    exact hall k hk ((hid k hk).mp heq)

/-- Two clients connect and the first leaves: the second keeps its entry. -/
theorem ids_unique_two_clients : ∃ s, Transition.run (step twoWorkers) (init fun _ _ => 0)
    [.accept 0 none, .session 0 .start, .session 0 .insert, .session 0 .rearm, .accept 0 none,
      .session 1 .start, .session 1 .insert, .session 1 .rearm] = some s ∧
      ∀ s', step twoWorkers s (.session 0 (.header 1 (some (.other 2)))) = some s' →
        (s'.sessions 0).reports ≠ (s.sessions 0).reports →
        s'.tcp.connections.find 10001 = some 1 := by
  have hrun : (Transition.run (step twoWorkers) (init fun _ _ => 0)
      [.accept 0 none, .session 0 .start, .session 0 .insert, .session 0 .rearm, .accept 0 none,
        .session 1 .start, .session 1 .insert, .session 1 .rearm]).map
        (fun s => (s.created, s.tcp.connections.find 10001)) = some (2, some 1) := by decide +kernel
  obtain ⟨s, hs, hfin⟩ := Option.map_eq_some_iff.mp hrun
  simp only [Prod.mk.injEq] at hfin
  refine ⟨s, hs, fun s' hs' hrep => ?_⟩
  exact ((ids_unique twoWorkers _ _ s hs (freshId_along hs (by omega))).2.2 0 _ s' hs' hrep).2
    10001 1 (by decide) hfin.2

/-! ## The wrap of the counter -/

/-- The server waits for clients and no handler is in progress. -/
structure Listening (s : Server) : Prop where
  isRunning : s.tcp.isRunning = true
  context : s.tcp.contextStopped = false
  accepts : s.tcp.accepts = 1
  sessions : ∀ k, (s.sessions k).accept = .returned ∧ (s.sessions k).handler = none

/-- All connections so far are open and no handler is in progress. -/
structure AllOpen (s : Server) : Prop extends Listening s where
  reading : ∀ k, k < s.created → (s.sessions k).conn.read = some (.header 0)

/-- The state after one more client has connected. -/
def connected (s : Server) : Server :=
  { s.setSession s.created { Session.new s.tcp.connectionIdCounter 0 with
      conn := (Connection.new s.tcp.connectionIdCounter).start, accept := .returned } with
    tcp := { s.tcp with
      accepts := s.tcp.accepts,
      connectionIdCounter := s.tcp.connectionIdCounter + 1,
      connections := s.tcp.connections.insert s.tcp.connectionIdCounter s.created },
    created := s.created + 1 }

/-- One more client connects. -/
theorem Listening.connect (hi : s.Listening) : Transition.run (step twoWorkers) s
    [.accept 0 none, .session s.created .start, .session s.created .insert,
      .session s.created .rearm] = some s.connected := by
  have hready : s.ready twoWorkers 0 = true := by
    simp [ready, twoWorkers, hi.context, Session.runsOn, hi.sessions, AcceptPc.worker]
  simp [Transition.run, step, accept, hready, hi.accepts, Tcp.acceptHandler_running hi.isRunning,
    sessionStep, startSession, insertSession, rearmAccept, setSession, Session.new, connected,
    Tcp.asyncAccept, Connection.start, Connection.asyncReadHeader, Connection.new]

theorem Listening.connected (hi : s.Listening) : s.connected.Listening where
  isRunning := hi.isRunning
  context := hi.context
  accepts := hi.accepts
  sessions := by
    intro k
    by_cases hk : k = s.created
    · simp [Server.connected, setSession, hk, Session.new, Session.unused]
    · simpa [Server.connected, setSession, hk] using hi.sessions k

theorem AllOpen.connected (hi : s.AllOpen) : s.connected.AllOpen where
  toListening := hi.toListening.connected
  reading := by
    intro k hlt
    by_cases hk : k = s.created
    · simp [Server.connected, setSession, hk, Connection.start, Connection.asyncReadHeader]
    · have : k < s.created + 1 := hlt
      simpa [Server.connected, setSession, hk] using hi.reading k (by omega)

/-- Any number of clients can be connected at the same time. -/
theorem reachable_allOpen (n : Nat) : ∃ s, Transition.Reachable (step twoWorkers) (init fun _ _ => 0) s ∧
    s.AllOpen ∧ s.created = n := by
  induction n with
  | zero =>
    refine ⟨_, ⟨[], rfl⟩, ⟨⟨rfl, rfl, rfl, fun _ => ⟨rfl, rfl⟩⟩, fun k hk => ?_⟩, rfl⟩
    exact absurd hk (Nat.not_lt_zero k)
  | succ n ih =>
    obtain ⟨s, ⟨as, has⟩, hs, hn⟩ := ih
    refine ⟨s.connected, ⟨_, Transition.run_append.mpr ⟨s, has, hs.connect⟩⟩, hs.connected, ?_⟩
    show s.created + 1 = n + 1
    rw [hn]

/-- With 2^32 + 1 clients connected the first and the last have the same id. -/
theorem ids_wrap : ¬ ∀ (cfg : Config) (mem : Memory) (s : Server),
    Transition.Reachable (step cfg) (init mem) s →
      ∀ j k, s.Alive j → s.Alive k → s.id j = s.id k → j = k := by
  intro hall
  obtain ⟨s, hs, hopen, hcreated⟩ := reachable_allOpen (2 ^ 32 + 1)
  have hn : s.Counted := reachable_induction hs (counted_init _) fun _ _ _ _ hi h => hi.step h
  have halive : ∀ k, k < s.created → s.Alive k := fun k hk =>
    ⟨hk, Or.inr (Or.inl (by rw [hopen.reading k hk]; simp))⟩
  have hid : s.id 0 = s.id (2 ^ 32) := by
    rw [hn.ids 0 (by omega), hn.ids (2 ^ 32) (by omega)]
    apply UInt32.toNat_inj.mp
    rw [UInt32.toNat_ofNat', UInt32.toNat_ofNat', Nat.add_mod_right, Nat.add_zero]
  have := hall _ _ s hs 0 (2 ^ 32) (halive 0 (by omega)) (halive _ (by omega)) hid
  omega

/-- The state after one more client has connected and left. -/
def passed (s : Server) : Server :=
  s.connected.endPart s.created
    { s.connected.sessions s.created with conn := (s.connected.sessions s.created).conn.completed.endReading.1 }
    (.disconnected s.tcp.connectionIdCounter)

theorem Listening.pass (hi : s.Listening) : Transition.run (step twoWorkers) s
    ([.accept 0 none, .session s.created .start, .session s.created .insert, .session s.created .rearm] ++
      [.session s.created (.header 1 (some (.other 2)))]) = some s.passed := by
  refine Transition.run_append.mpr ⟨s.connected, hi.connect, ?_⟩
  have hopen := hi.connected
  have hready : s.connected.ready twoWorkers 1 = true := by
    simp [ready, twoWorkers, hopen.context, Session.runsOn, hopen.sessions, AcceptPc.worker]
  have hread : (s.connected.sessions s.created).conn.read = some (.header 0) := by
    simp [Server.connected, setSession, Connection.start, Connection.asyncReadHeader]
  have hid : (s.connected.sessions s.created).conn.connectionId = s.tcp.connectionIdCounter := by
    simp [Server.connected, setSession, Connection.start, Connection.asyncReadHeader, Connection.new]
  simp [Transition.run, step, sessionStep, completeHeader, hread, hready, (hopen.sessions _).2, passed,
    Connection.asyncReadHeaderHandler, checkReadError, Connection.onReadError, Connection.endReading,
    Connection.completed, hid, PacketHeader.sizeof_eq]

theorem Listening.passed (hi : s.Listening) : s.passed.Listening where
  isRunning := hi.isRunning
  context := hi.context
  accepts := hi.accepts
  sessions := by
    intro k
    by_cases hk : k = s.created
    · simp [Server.passed, endPart, setSession, hk, Server.connected, Session.new, Session.unused]
    · simpa [Server.passed, endPart, setSession, hk, Server.connected] using hi.sessions k

/-- The first connection is open and in the map, and no other connection is alive. -/
structure FirstOpen (s : Server) : Prop extends Listening s where
  created : 0 < s.created
  reading : (s.sessions 0).conn.read = some (.header 0)
  entry : s.tcp.connections.find (s.id 0) = some 0
  alone : ∀ k, s.Alive k → k = 0

/-- One more client comes and goes, under an id that is not that of the first. -/
theorem FirstOpen.passed (hi : s.FirstOpen) (hid : s.id 0 ≠ s.tcp.connectionIdCounter) :
    s.passed.FirstOpen := by
  have hold : ∀ k, k ≠ s.created → s.passed.sessions k = s.sessions k := by
    intro k hk
    simp [Server.passed, endPart, setSession, hk, Server.connected]
  have hfind : ∀ key, s.passed.tcp.connections.find key =
      if key = s.tcp.connectionIdCounter then none else s.tcp.connections.find key := by
    intro key
    show ((s.tcp.connections.insert s.tcp.connectionIdCounter s.created).erase _).find key = _
    rw [TsMap.find_erase, TsMap.find_insert]
    split <;> rfl
  have hzero := hold 0 (Nat.ne_of_lt hi.created)
  refine ⟨hi.toListening.passed, Nat.succ_pos _, by rw [hzero]; exact hi.reading, ?_, ?_⟩
  · rw [id, hzero, hfind]
    exact (if_neg hid).trans hi.entry
  · rintro k ⟨hk, hwhy⟩
    by_cases hks : k = s.created
    · -- it has left
      subst hks
      simp [Server.passed, endPart, setSession, Server.connected, Connection.completed,
        Connection.endReading, Connection.close, Connection.stop, id, Tcp.disconnect, Session.new,
        Session.unused, Connection.start, Connection.asyncReadHeader, Connection.new, TsMap.find_erase] at hwhy
    · refine hi.alone k ⟨?_, ?_⟩
      · have hlt : k < s.created + 1 := hk
        omega
      · rw [id, hold k hks, hfind] at hwhy
        split at hwhy
        · exact hwhy.imp_right (Or.imp_right (Or.imp_right fun h => by cases h))
        · exact hwhy

/-- The first client stays while `n` others come and go. -/
theorem reachable_firstOpen (n : Nat) (hn : n < 2 ^ 32) : ∃ s,
    Transition.Reachable (step twoWorkers) (init fun _ _ => 0) s ∧ s.FirstOpen ∧ s.created = n + 1 := by
  induction n with
  | zero =>
    obtain ⟨s, ⟨as, has⟩, hopen, hcreated⟩ := reachable_allOpen 0
    have hnext : s.connected.created = 1 := congrArg (· + 1) hcreated
    have hid : s.connected.id 0 = s.tcp.connectionIdCounter := by
      simp [Server.connected, id, setSession, hcreated, Connection.start, Connection.asyncReadHeader,
        Connection.new]
    refine ⟨s.connected, ⟨_, Transition.run_append.mpr ⟨s, has, hopen.connect⟩⟩,
      ⟨hopen.toListening.connected, by omega, hopen.connected.reading 0 (by omega), ?_, ?_⟩, hnext⟩
    · show (s.tcp.connections.insert s.tcp.connectionIdCounter s.created).find (s.connected.id 0) = some 0
      rw [hid, TsMap.find_insert, if_pos rfl, hcreated]
    · rintro k ⟨hk, -⟩
      omega
  | succ n ih =>
    obtain ⟨s, hs, hi, hcreated⟩ := ih (by omega)
    have hcounted : s.Counted := reachable_induction hs (counted_init _) fun _ _ _ _ hi h => hi.step h
    have hid : s.id 0 ≠ s.tcp.connectionIdCounter := by
      rw [hcounted.ids 0 hi.created, hcounted.counter, ne_eq, ← UInt32.toNat_inj, UInt32.toNat_ofNat',
        UInt32.toNat_ofNat']
      omega
    obtain ⟨as, has⟩ := hs
    refine ⟨s.passed, ⟨_, Transition.run_append.mpr ⟨s, has, hi.pass⟩⟩, hi.passed hid, ?_⟩
    show s.created + 1 = n + 1 + 1
    rw [hcreated]

/-- The first session stays open over 2^32 accepts, all others but the last have ended: the last gets
the id of the first, and the entry of the first is overwritten. -/
theorem ids_wrap_one_session : ∃ s, Transition.Reachable (step twoWorkers) (init fun _ _ => 0) s ∧
    s.Alive 0 ∧ s.Alive (2 ^ 32) ∧ (∀ k, s.Alive k → k = 0 ∨ k = 2 ^ 32) ∧ s.id 0 = s.id (2 ^ 32) ∧
    s.tcp.connections.find (s.id 0) = some (2 ^ 32) := by
  obtain ⟨s, ⟨as, has⟩, hi, hcreated⟩ := reachable_firstOpen (2 ^ 32 - 1) (by decide)
  have hlast : s.created = 2 ^ 32 := hcreated
  have hreach : Transition.Reachable (step twoWorkers) (init fun _ _ => 0) s.connected :=
    ⟨_, Transition.run_append.mpr ⟨s, has, hi.connect⟩⟩
  have hn : s.connected.Counted := reachable_induction hreach (counted_init _) fun _ _ _ _ hi h => hi.step h
  have hnext : s.connected.created = 2 ^ 32 + 1 := congrArg (· + 1) hlast
  have hold : ∀ k, k ≠ s.created → s.connected.sessions k = s.sessions k := by
    intro k hk
    simp [Server.connected, setSession, hk]
  have hnew : (s.connected.sessions (2 ^ 32)).conn.read = some (.header 0) := by
    simp [Server.connected, setSession, hlast, Connection.start, Connection.asyncReadHeader]
  have hfind : ∀ key, s.connected.tcp.connections.find key =
      if key = s.tcp.connectionIdCounter then some (2 ^ 32) else s.tcp.connections.find key := by
    intro key
    show (s.tcp.connections.insert s.tcp.connectionIdCounter s.created).find key = _
    rw [TsMap.find_insert, hlast]
  have hid : s.connected.id 0 = s.connected.id (2 ^ 32) := by
    rw [hn.ids 0 (by omega), hn.ids (2 ^ 32) (by omega), ← UInt32.toNat_inj, UInt32.toNat_ofNat',
      UInt32.toNat_ofNat', Nat.add_mod_right, Nat.add_zero]
  have hcounter : s.connected.id (2 ^ 32) = s.tcp.connectionIdCounter := by
    simp [Server.connected, id, setSession, hlast, Connection.start, Connection.asyncReadHeader,
      Connection.new]
  refine ⟨s.connected, hreach, ⟨by omega, .inr (.inl ?_)⟩, ⟨by omega, .inr (.inl (by rw [hnew]; simp))⟩,
    fun k hk => ?_, hid, ?_⟩
  · rw [hold 0 (Nat.ne_of_lt hi.created), hi.reading]
    simp
  · by_cases hk' : k = 2 ^ 32
    · exact .inr hk'
    · have hlt := hk.1
      have hwhy := hk.2
      rw [id, hold k (hlast ▸ hk'), hfind] at hwhy
      refine .inl (hi.alone k ⟨by omega, ?_⟩)
      split at hwhy
      · exact hwhy.imp_right (Or.imp_right (Or.imp_right fun h => absurd (Option.some.inj h).symm hk'))
      · exact hwhy
  · rw [hfind, hid, hcounter, if_pos rfl]

end Server

end Us2d
