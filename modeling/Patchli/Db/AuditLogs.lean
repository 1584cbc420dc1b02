import Patchli.Foundation.GoString
import Patchli.Foundation.Serial

/-!
# The migrations of the audit log

`000002_advanced_orchestration` and `000004_audit_partition_fallback`, as far as they touch
`audit_logs`. Every file is a list of statements and runs as a whole or not at all. What
they do to other tables is left out.
-/

namespace Patchli.Db.AuditLogs

open Serial

/-! ### Tables -/

/-- A row without its `id`. The values fit the types of the columns. -/
structure Entry where
  jobID : Option GoString
  nodeID : Option ℤ
  action : GoString
  status : GoString
  output : Option GoString
  createdAt : Option Time
  deriving DecidableEq

structure AuditLog extends Entry where
  id : ℤ
  deriving DecidableEq

/-- The largest `INT`, and the largest value of a `SERIAL` sequence. -/
def maxID : ℤ := 2 ^ 31 - 1

inductive PrimaryKey
  | id
  | idCreatedAt
  deriving DecidableEq

/-- The columns of the key. -/
def PrimaryKey.of : PrimaryKey → AuditLog → ℤ × Option Time
  | .id, r => (r.id, none)
  | .idCreatedAt, r => (r.id, r.createdAt)

/-- A column of the primary key is not null. -/
def PrimaryKey.NotNull : PrimaryKey → Entry → Prop
  | .id, _ => True
  | .idCreatedAt, e => e.createdAt ≠ none

instance : ∀ (key : PrimaryKey) (e : Entry), Decidable (key.NotNull e)
  | .id, _ => isTrue trivial
  | .idCreatedAt, e => inferInstanceAs (Decidable (e.createdAt ≠ none))

inductive Storage
  | heap
  /-- `PARTITION BY RANGE (created_at)`. All rows are in the default partition, if it exists. -/
  | partitioned (hasDefault : Bool)
  deriving DecidableEq

/-- A table, with the sequence that its `id` owns. -/
structure Table where
  key : PrimaryKey
  storage : Storage
  rows : List AuditLog
  sequence : Sequence

inductive TableName
  | auditLogs
  | auditLogsOldBackup
  | auditLogsPartitionedBackup
  deriving DecidableEq

structure Database where
  /-- The ids in `nodes`. -/
  nodes : List ℤ
  tables : TableName → Option Table

def Database.put (db : Database) (name : TableName) (t : Option Table) : Database :=
  { db with tables := Function.update db.tables name t }

/-- The constraints on one row: a partition for it, a key that is not null, and the foreign
key. -/
def Table.Accepts (t : Table) (nodes : List ℤ) (e : Entry) : Prop :=
  t.storage ≠ .partitioned false ∧ t.key.NotNull e ∧ ∀ n ∈ e.nodeID, n ∈ nodes

instance (t : Table) (nodes : List ℤ) (e : Entry) : Decidable (t.Accepts nodes e) :=
  inferInstanceAs (Decidable (_ ∧ _ ∧ _))

def Table.insert (t : Table) (nodes : List ℤ) (rs : List AuditLog) : Option Table :=
  (insertAll t.key.of (fun r => t.Accepts nodes r.toEntry) t.rows rs).map fun rows =>
    { t with rows := rows }

/-- `COALESCE((SELECT MAX(id)::bigint + 1 FROM audit_logs), 1)` -/
def Table.nextID (t : Table) : ℤ := following (t.rows.map AuditLog.id)

/-! ### Statements -/

inductive Stmt
  /-- `DROP TRIGGER IF EXISTS` and `DROP FUNCTION IF EXISTS`, of a trigger that no migration
  creates any more. -/
  | dropTrigger
  | renameTable (old new : TableName)
  /-- `CREATE TABLE`, with `id SERIAL`. -/
  | createTable (name : TableName) (key : PrimaryKey) (partitioned : Bool)
  /-- `CREATE TABLE audit_logs_default PARTITION OF audit_logs DEFAULT` -/
  | createDefault (ifNotExists : Bool)
  /-- `INSERT INTO audit_logs (...) SELECT ... FROM source` -/
  | insertSelect (source : TableName)
  | dropTable (name : TableName)
  /-- `SELECT setval(pg_get_serial_sequence('audit_logs', 'id'), ..., false)` -/
  | setvalNextID
  /-- `SELECT 1` -/
  | select1

/-- `none` is an error. -/
def Stmt.eval (db : Database) : Stmt → Option Database
  | .dropTrigger | .select1 => some db
  | .renameTable old new =>
    match db.tables old, db.tables new with
    | some t, none => some ((db.put old none).put new (some t))
    | _, _ => none
  | .createTable name key partitioned =>
    match db.tables name with
    | some _ => none
    | none =>
      let storage : Storage := if partitioned then .partitioned false else .heap
      some (db.put name (some ⟨key, storage, [], .start⟩))
  | .createDefault ifNotExists =>
    match db.tables .auditLogs with
    | none => none
    | some t =>
      match t.storage with
      | .heap => none
      | .partitioned true => if ifNotExists then some db else none
      | .partitioned false =>
        some (db.put .auditLogs (some { t with storage := .partitioned true }))
  | .insertSelect source =>
    match db.tables .auditLogs, db.tables source with
    | some t, some s => (t.insert db.nodes s.rows).map fun t => db.put .auditLogs (some t)
    | _, _ => none
  | .dropTable name => (db.tables name).map fun _ => db.put name none
  | .setvalNextID =>
    match db.tables .auditLogs with
    | none => none
    | some t =>
      (Sequence.setval maxID t.nextID false).map fun s =>
        db.put .auditLogs (some { t with sequence := s })

def migrate (file : List Stmt) (db : Database) : Option Database := file.foldlM Stmt.eval db

def up000002 : List Stmt :=
  [.renameTable .auditLogs .auditLogsOldBackup, .createTable .auditLogs .idCreatedAt true,
    .createDefault false, .insertSelect .auditLogsOldBackup, .dropTable .auditLogsOldBackup,
    .setvalNextID]

def up000004 : List Stmt := [.dropTrigger, .createDefault true]

def down000004 : List Stmt := [.select1]

def down000002 : List Stmt :=
  [.dropTrigger, .renameTable .auditLogs .auditLogsPartitionedBackup,
    .createTable .auditLogs .id false, .insertSelect .auditLogsPartitionedBackup,
    .dropTable .auditLogsPartitionedBackup, .setvalNextID]

def migrateUp (db : Database) : Option Database := (migrate up000002 db).bind (migrate up000004)

def migrateDown (db : Database) : Option Database :=
  (migrate down000004 db).bind (migrate down000002)

/-- `INSERT INTO audit_logs` without an `id`. A value that was drawn is spent, whether the
row is accepted or not. -/
def insertEntry (db : Database) (e : Entry) : Database :=
  match db.tables .auditLogs with
  | none => db
  | some t =>
    match t.sequence.nextval maxID with
    | none => db
    | some (id, s) =>
      let t := { t with sequence := s }
      db.put .auditLogs (some ((t.insert db.nodes [{ e with id := id }]).getD t))

/-! ### Version 1 and version 4 -/

/-- The rows can be rows of a table of version 1. -/
structure Valid (nodes : List ℤ) (rows : List AuditLog) : Prop where
  ids : (rows.map AuditLog.id).Nodup
  references : ∀ r ∈ rows, ∀ n ∈ r.nodeID, n ∈ nodes

/-- A database with one table of audit logs. -/
def Database.single (nodes : List ℤ) (t : Table) : Database :=
  ⟨nodes, Function.update (fun _ => none) .auditLogs (some t)⟩

/-- The tables that 000001 creates. -/
def version1 (nodes : List ℤ) (rows : List AuditLog) (sequence : Sequence) : Database :=
  .single nodes ⟨.id, .heap, rows, sequence⟩

def version4 (nodes : List ℤ) (rows : List AuditLog) (sequence : Sequence) : Database :=
  .single nodes ⟨.idCreatedAt, .partitioned true, rows, sequence⟩

variable {nodes : List ℤ} {rows : List AuditLog} {sequence : Sequence}

theorem keys_nodup (hids : (rows.map AuditLog.id).Nodup) (key : PrimaryKey) :
    (rows.map key.of).Nodup := by
  have hfst : (rows.map key.of).map Prod.fst = rows.map AuditLog.id := by
    rw [List.map_map]
    cases key <;> rfl
  apply List.Nodup.of_map Prod.fst
  rwa [hfst]

theorem insert_all {t : Table} (hempty : t.rows = []) (hids : (rows.map AuditLog.id).Nodup)
    (haccepts : ∀ r ∈ rows, t.Accepts nodes r.toEntry) :
    t.insert nodes rows = some { t with rows := rows } := by
  unfold Table.insert
  rw [hempty, insertAll_eq]
  · rfl
  · simpa using keys_nodup hids t.key
  · exact haccepts

/-- The sequence is set to follow the largest id. -/
def reposition (rows : List AuditLog) : Option Sequence :=
  Sequence.setval maxID (following (rows.map AuditLog.id)) false

theorem migrate_copy {db : Database} {t old : Table} {backup : TableName}
    (ht : db.tables .auditLogs = some t) (hold : db.tables backup = some old)
    (hbackup : backup ≠ .auditLogs) (hempty : t.rows = [])
    (hids : (old.rows.map AuditLog.id).Nodup)
    (haccepts : ∀ r ∈ old.rows, t.Accepts db.nodes r.toEntry) :
    migrate [.insertSelect backup, .dropTable backup, .setvalNextID] db =
      (reposition old.rows).map fun s =>
        ((db.put .auditLogs (some { t with rows := old.rows })).put backup none).put .auditLogs
          (some { t with rows := old.rows, sequence := s }) := by
  have hinsert := insert_all hempty hids haccepts
  simp only [migrate, List.foldlM_cons, List.foldlM_nil, Stmt.eval, ht, hold, hinsert,
    Option.map_some, Option.bind_eq_bind, Option.bind_some, Database.put,
    Function.update_of_ne hbackup, Function.update_of_ne hbackup.symm, Function.update_self]
  unfold reposition Table.nextID
  cases Sequence.setval maxID (following (old.rows.map AuditLog.id)) false <;> rfl

theorem Database.eq_single {db : Database} {t : Table}
    (h : ∀ name, db.tables name = (single db.nodes t).tables name) : db = single db.nodes t := by
  obtain ⟨nodes, tables⟩ := db
  obtain rfl : tables = (single nodes t).tables := funext h
  rfl

theorem migrate_up000002 (hvalid : Valid nodes rows) (hcreated : ∀ r ∈ rows, r.createdAt ≠ none) :
    migrate up000002 (version1 nodes rows sequence) =
      (reposition rows).map (version4 nodes rows) := by
  have hcreate : migrate up000002 (version1 nodes rows sequence) =
      migrate [.insertSelect .auditLogsOldBackup, .dropTable .auditLogsOldBackup, .setvalNextID]
        (((((version1 nodes rows sequence).put .auditLogs none).put .auditLogsOldBackup
          (some ⟨.id, .heap, rows, sequence⟩)).put .auditLogs
            (some ⟨.idCreatedAt, .partitioned false, [], .start⟩)).put .auditLogs
              (some ⟨.idCreatedAt, .partitioned true, [], .start⟩)) := rfl
  have haccepts : ∀ r ∈ rows,
      (⟨.idCreatedAt, .partitioned true, [], .start⟩ : Table).Accepts nodes r.toEntry := by
    intro r hr
    exact ⟨by simp, hcreated r hr, hvalid.references r hr⟩
  rw [hcreate, migrate_copy rfl rfl (by decide) rfl hvalid.ids haccepts]
  congr 1
  funext s
  apply Database.eq_single
  intro name
  cases name <;> rfl

theorem migrateUp_eq (hvalid : Valid nodes rows) (hcreated : ∀ r ∈ rows, r.createdAt ≠ none) :
    migrateUp (version1 nodes rows sequence) = (reposition rows).map (version4 nodes rows) := by
  unfold migrateUp
  rw [migrate_up000002 hvalid hcreated]
  cases reposition rows <;> rfl

theorem migrateDown_eq (hvalid : Valid nodes rows) :
    migrateDown (version4 nodes rows sequence) = (reposition rows).map (version1 nodes rows) := by
  have hcreate : migrateDown (version4 nodes rows sequence) =
      migrate [.insertSelect .auditLogsPartitionedBackup, .dropTable .auditLogsPartitionedBackup,
          .setvalNextID]
        ((((version4 nodes rows sequence).put .auditLogs none).put .auditLogsPartitionedBackup
          (some ⟨.idCreatedAt, .partitioned true, rows, sequence⟩)).put .auditLogs
            (some ⟨.id, .heap, [], .start⟩)) := rfl
  have haccepts : ∀ r ∈ rows, (⟨.id, .heap, [], .start⟩ : Table).Accepts nodes r.toEntry := by
    intro r hr
    exact ⟨by simp, trivial, hvalid.references r hr⟩
  rw [hcreate, migrate_copy rfl rfl (by decide) rfl hvalid.ids haccepts]
  congr 1
  funext s
  apply Database.eq_single
  intro name
  cases name <;> rfl

/-! ### Inserts between the migrations -/

/-- The constraints of version 4 on a new row. -/
def Accepted (nodes : List ℤ) (e : Entry) : Prop :=
  e.createdAt ≠ none ∧ ∀ n ∈ e.nodeID, n ∈ nodes

instance (nodes : List ℤ) (e : Entry) : Decidable (Accepted nodes e) :=
  inferInstanceAs (Decidable (_ ∧ _))

/-- The row that is stored for the value `n` of the sequence, if any. -/
def stored (nodes : List ℤ) (n : ℤ) (e : Entry) : List AuditLog :=
  if Accepted nodes e then [{ e with id := n }] else []

/-- The rows that are stored when the sequence has come to `n`. -/
def inserted (nodes : List ℤ) : ℤ → List Entry → List AuditLog
  | _, [] => []
  | n, e :: entries =>
    if n ≤ maxID then stored nodes n e ++ inserted nodes (n + 1) entries else []

theorem mem_stored {n : ℤ} {e : Entry} {r : AuditLog} (hr : r ∈ stored nodes n e) :
    r.id = n ∧ Accepted nodes r.toEntry := by
  unfold stored at hr
  split at hr
  · rename_i haccepted
    rw [List.mem_singleton.mp hr]
    exact ⟨rfl, haccepted⟩
  · cases hr

theorem inserted_of_exhausted {n : ℤ} (hn : maxID < n) (entries : List Entry) :
    inserted nodes n entries = [] := by
  cases entries with
  | nil => rfl
  | cons e entries => exact if_neg (not_le.mpr hn)

theorem insert_stored {n : ℤ} (hbelow : ∀ r ∈ rows, r.id < n) (e : Entry) (s : Sequence) :
    ((⟨.idCreatedAt, .partitioned true, rows, s⟩ : Table).insert nodes [{ e with id := n }]).getD
        ⟨.idCreatedAt, .partitioned true, rows, s⟩ =
      ⟨.idCreatedAt, .partitioned true, rows ++ stored nodes n e, s⟩ := by
  have hnew : PrimaryKey.idCreatedAt.of { e with id := n } ∉
      rows.map PrimaryKey.idCreatedAt.of := by
    intro hmem
    obtain ⟨r, hr, hkey⟩ := List.mem_map.mp hmem
    exact (hbelow r hr).ne (Prod.mk.inj hkey).1
  have haccepts : (⟨.idCreatedAt, .partitioned true, rows, s⟩ : Table).Accepts nodes e ↔
      Accepted nodes e := by
    simp [Table.Accepts, PrimaryKey.NotNull, Accepted]
  by_cases h : Accepted nodes e <;>
    simp [Table.insert, insertAll, Serial.insert, stored, haccepts, hnew, h]

theorem insertEntry_version4 (hbelow : ∀ r ∈ rows, r.id < sequence.next) (e : Entry) :
    insertEntry (version4 nodes rows sequence) e =
      if sequence.next ≤ maxID then
        version4 nodes (rows ++ stored nodes sequence.next e) ⟨sequence.next, true⟩
      else version4 nodes rows sequence := by
  have htable : (version4 nodes rows sequence).tables .auditLogs =
      some ⟨.idCreatedAt, .partitioned true, rows, sequence⟩ := rfl
  simp only [insertEntry, htable, Sequence.nextval]
  by_cases hn : sequence.next ≤ maxID
  · simp only [hn, if_true]
    rw [insert_stored hbelow]
    apply Database.eq_single
    intro name
    cases name <;> rfl
  · simp only [hn, if_false]

theorem mem_inserted {n : ℤ} {entries : List Entry} {r : AuditLog}
    (hr : r ∈ inserted nodes n entries) :
    n ≤ r.id ∧ r.id ≤ maxID ∧ Accepted nodes r.toEntry := by
  induction entries generalizing n with
  | nil => cases hr
  | cons e entries ih =>
    unfold inserted at hr
    split at hr
    · rename_i hn
      rcases List.mem_append.mp hr with hr | hr
      · obtain ⟨hid, haccepted⟩ := mem_stored hr
        exact ⟨by omega, by omega, haccepted⟩
      · obtain ⟨hlow, hrest⟩ := ih hr
        exact ⟨by omega, hrest⟩
    · cases hr

theorem inserted_ids (nodes : List ℤ) (n : ℤ) (entries : List Entry) :
    ((inserted nodes n entries).map AuditLog.id).Nodup := by
  induction entries generalizing n with
  | nil => exact List.nodup_nil
  | cons e entries ih =>
    unfold inserted stored
    split
    · split
      · rw [List.singleton_append, List.map_cons, List.nodup_cons]
        refine ⟨?_, ih (n + 1)⟩
        intro hmem
        obtain ⟨r, hr, hid⟩ := List.mem_map.mp hmem
        have hlow := (mem_inserted hr).1
        simp only at hid
        omega
      · exact ih (n + 1)
    · exact List.nodup_nil

theorem exists_last_inserted {n : ℤ} (hn : n ≤ maxID) (entries : List Entry) :
    (∃ r ∈ inserted nodes n entries, r.id = maxID) ↔
      ∃ e ∈ entries[(maxID - n).toNat]?, Accepted nodes e := by
  induction entries generalizing n with
  | nil => simp [inserted]
  | cons e entries ih =>
    rcases eq_or_lt_of_le hn with heq | hlt
    · subst heq
      have hrest : inserted nodes (maxID + 1) entries = [] :=
        inserted_of_exhausted (by omega) entries
      by_cases haccepted : Accepted nodes e <;> simp [inserted, stored, hrest, haccepted]
    · have hindex : (maxID - n).toNat = (maxID - (n + 1)).toNat + 1 := by omega
      rw [hindex, List.getElem?_cons_succ, ← ih (by omega)]
      have hne : n ≠ maxID := hlt.ne
      by_cases haccepted : Accepted nodes e <;> simp [inserted, stored, hn, haccepted, hne]

theorem foldl_insertEntry (hbelow : ∀ r ∈ rows, r.id < sequence.next) (entries : List Entry) :
    ∃ s, entries.foldl insertEntry (version4 nodes rows sequence) =
      version4 nodes (rows ++ inserted nodes sequence.next entries) s := by
  induction entries generalizing rows sequence with
  | nil => exact ⟨sequence, by simp [inserted]⟩
  | cons e entries ih =>
    rw [List.foldl_cons, insertEntry_version4 hbelow]
    by_cases hn : sequence.next ≤ maxID
    · have hbelow' : ∀ r ∈ rows ++ stored nodes sequence.next e,
          r.id < Sequence.next ⟨sequence.next, true⟩ := by
        intro r hr
        rw [Sequence.next_called]
        rcases List.mem_append.mp hr with hr | hr
        · have hlt := hbelow r hr
          omega
        · have hid := (mem_stored hr).1
          omega
      obtain ⟨s, hs⟩ := ih hbelow'
      refine ⟨s, ?_⟩
      rw [if_pos hn, hs, Sequence.next_called, List.append_assoc]
      simp only [inserted, hn, if_true]
    · obtain ⟨s, hs⟩ := ih hbelow
      refine ⟨s, ?_⟩
      rw [if_neg hn, hs, inserted_of_exhausted (not_le.mp hn), inserted_of_exhausted (not_le.mp hn)]

/-! ### History is kept -/

def Database.auditLogs (db : Database) : List AuditLog :=
  ((db.tables .auditLogs).map fun t => t.rows).getD []

/-- The next generated id is larger than every id in the table. -/
def Database.NextExceeds (db : Database) : Prop :=
  ∃ t, db.tables .auditLogs = some t ∧ ∃ n s, t.sequence.nextval maxID = some (n, s) ∧
    ∀ r ∈ t.rows, r.id < n

/-- Both migrations succeed and keep the rows, with inserts between them. -/
def HistoryKept (nodes : List ℤ) (rows : List AuditLog) (sequence : Sequence)
    (entries : List Entry) : Prop :=
  ∃ up, migrateUp (version1 nodes rows sequence) = some up ∧ up.auditLogs = rows ∧
    up.NextExceeds ∧
    let before := entries.foldl insertEntry up
    ∃ down, migrateDown before = some down ∧ down.auditLogs = before.auditLogs ∧
      down.NextExceeds

/-- No id is the largest one and, unless there are no rows, some id is not negative. -/
def IdsFit (rows : List AuditLog) : Prop :=
  (∀ r ∈ rows, r.id < maxID) ∧ (rows ≠ [] → ∃ r ∈ rows, 0 ≤ r.id)

theorem reposition_eq (rows : List AuditLog) :
    (reposition rows = some ⟨following (rows.map AuditLog.id), false⟩ ∧ IdsFit rows) ∨
      (reposition rows = none ∧ ¬ IdsFit rows) := by
  have hfit : 1 ≤ following (rows.map AuditLog.id) ∧ following (rows.map AuditLog.id) ≤ maxID ↔
      IdsFit rows := by
    rw [following_mem (by decide)]
    simp [IdsFit]
  by_cases h : IdsFit rows
  · exact Or.inl ⟨if_pos (hfit.mpr h), h⟩
  · exact Or.inr ⟨if_neg (hfit.not.mpr h), h⟩

theorem nextID_fits (hfit : IdsFit rows) :
    1 ≤ following (rows.map AuditLog.id) ∧ following (rows.map AuditLog.id) ≤ maxID := by
  apply (following_mem (by decide)).mpr
  simpa [IdsFit] using hfit

theorem nextExceeds_single {t : Table} (hfit : IdsFit t.rows)
    (hsequence : t.sequence = ⟨following (t.rows.map AuditLog.id), false⟩) :
    (Database.single nodes t).NextExceeds := by
  have hnextval : t.sequence.nextval maxID = some (following (t.rows.map AuditLog.id),
      ⟨following (t.rows.map AuditLog.id), true⟩) := by
    rw [hsequence]
    exact if_pos (nextID_fits hfit).2
  exact ⟨t, rfl, _, _, hnextval, fun r hr => lt_following (List.mem_map_of_mem hr)⟩

theorem migrated_iff {key : PrimaryKey} {storage : Storage} {result : Option Database}
    (h : result = (reposition rows).map fun s => Database.single nodes ⟨key, storage, rows, s⟩) :
    (∃ db, result = some db ∧ db.auditLogs = rows ∧ db.NextExceeds) ↔ IdsFit rows := by
  subst h
  rcases reposition_eq rows with ⟨hset, hfit⟩ | ⟨hset, hfit⟩
  · rw [hset, Option.map_some]
    refine iff_of_true ⟨_, rfl, rfl, ?_⟩ hfit
    exact nextExceeds_single hfit rfl
  · rw [hset, Option.map_none]
    apply iff_of_false _ hfit
    rintro ⟨db, hdb, -⟩
    cases hdb

theorem valid_append {n : ℤ} (hvalid : Valid nodes rows) (hbelow : ∀ r ∈ rows, r.id < n)
    (entries : List Entry) : Valid nodes (rows ++ inserted nodes n entries) := by
  refine ⟨?_, ?_⟩
  · rw [List.map_append]
    apply List.Nodup.append hvalid.ids (inserted_ids nodes n entries)
    intro i hi hi'
    obtain ⟨r, hr, rfl⟩ := List.mem_map.mp hi
    obtain ⟨r', hr', hid⟩ := List.mem_map.mp hi'
    have hlow := (mem_inserted hr').1
    have hlt := hbelow r hr
    omega
  · intro r hr
    rcases List.mem_append.mp hr with hr | hr
    · exact hvalid.references r hr
    · exact (mem_inserted hr).2.2.2

theorem idsFit_append (hfit : IdsFit rows) (entries : List Entry) :
    IdsFit (rows ++ inserted nodes (following (rows.map AuditLog.id)) entries) ↔
      ¬ ∃ r ∈ inserted nodes (following (rows.map AuditLog.id)) entries, r.id = maxID := by
  have hfollowing := (nextID_fits hfit).1
  constructor
  · rintro ⟨hbelow, -⟩ ⟨r, hr, hid⟩
    exact (hbelow r (List.mem_append_right _ hr)).ne hid
  · intro hlast
    refine ⟨?_, ?_⟩
    · intro r hr
      rcases List.mem_append.mp hr with hr | hr
      · exact hfit.1 r hr
      · apply lt_of_le_of_ne (mem_inserted hr).2.1
        intro hid
        exact hlast ⟨r, hr, hid⟩
    · intro hne
      by_cases hrows : rows = []
      · obtain ⟨r, hr⟩ := List.exists_mem_of_ne_nil _ hne
        refine ⟨r, hr, ?_⟩
        rw [hrows, List.nil_append] at hr
        have hlow := (mem_inserted hr).1
        rw [hrows] at hfollowing
        simp only [List.map_nil] at hlow
        simp only [List.map_nil] at hfollowing
        omega
      · obtain ⟨r, hr, hzero⟩ := hfit.2 hrows
        exact ⟨r, List.mem_append_left _ hr, hzero⟩

/-- The way up already needs ids that fit. -/
theorem idsFit_of_kept (hvalid : Valid nodes rows) (hcreated : ∀ r ∈ rows, r.createdAt ≠ none)
    {entries : List Entry} (h : HistoryKept nodes rows sequence entries) : IdsFit rows := by
  obtain ⟨up, hsome, hrows, hexceeds, -⟩ := h
  exact (migrated_iff (migrateUp_eq hvalid hcreated)).mp ⟨up, hsome, hrows, hexceeds⟩

/-- History is kept both ways unless the ends of the range of ids are in the way: no id of
the table is the largest one, some id is not negative unless the table is empty, and the
insert that draws the largest id, if there is one, is rejected. -/
theorem history_kept_iff (hvalid : Valid nodes rows) (hcreated : ∀ r ∈ rows, r.createdAt ≠ none)
    (sequence : Sequence) (entries : List Entry) :
    HistoryKept nodes rows sequence entries ↔
      IdsFit rows ∧ ∀ e ∈ entries[(maxID - following (rows.map AuditLog.id)).toNat]?,
        ¬ Accepted nodes e := by
  have hmigrate : migrateUp (version1 nodes rows sequence) =
      (reposition rows).map (version4 nodes rows) := migrateUp_eq hvalid hcreated
  by_cases hfit : IdsFit rows
  · have hset := (reposition_eq rows).resolve_right (fun h => h.2 hfit)
    have hbelow : ∀ r ∈ rows, r.id < following (rows.map AuditLog.id) :=
      fun r hr => lt_following (List.mem_map_of_mem hr)
    have hsome : migrateUp (version1 nodes rows sequence) =
        some (version4 nodes rows ⟨following (rows.map AuditLog.id), false⟩) := by
      rw [hmigrate, hset.1]
      rfl
    obtain ⟨s, hs⟩ : ∃ s, entries.foldl insertEntry
          (version4 nodes rows ⟨following (rows.map AuditLog.id), false⟩) =
        version4 nodes (rows ++ inserted nodes (following (rows.map AuditLog.id)) entries) s :=
      foldl_insertEntry hbelow entries
    have hreturn : migrateDown (version4 nodes
          (rows ++ inserted nodes (following (rows.map AuditLog.id)) entries) s) =
        (reposition (rows ++ inserted nodes (following (rows.map AuditLog.id)) entries)).map
          (version1 nodes (rows ++ inserted nodes (following (rows.map AuditLog.id)) entries)) :=
      migrateDown_eq (valid_append hvalid hbelow entries)
    have hback := migrated_iff hreturn
    have hafter : IdsFit (rows ++ inserted nodes (following (rows.map AuditLog.id)) entries) ↔
        ¬ ∃ r ∈ inserted nodes (following (rows.map AuditLog.id)) entries, r.id = maxID :=
      idsFit_append hfit entries
    rw [exists_last_inserted (nextID_fits hfit).2] at hafter
    simp only [not_exists, not_and] at hafter
    rw [← hafter]
    constructor
    · rintro ⟨up, hup', -, -, hdown⟩
      obtain rfl := Option.some.inj (hsome.symm.trans hup')
      dsimp only at hdown
      rw [hs] at hdown
      exact ⟨hfit, hback.mp hdown⟩
    · rintro ⟨-, hfits⟩
      refine ⟨_, hsome, rfl, nextExceeds_single hfit rfl, ?_⟩
      dsimp only
      rw [hs]
      exact hback.mpr hfits
  · apply iff_of_false
    · intro hkept
      exact hfit (idsFit_of_kept hvalid hcreated hkept)
    · rintro ⟨h, -⟩
      exact hfit h

def checkUpdates (id : ℤ) : AuditLog :=
  ⟨⟨none, some 7, ascii "check_updates", ascii "success", none, some 0⟩, id⟩

theorem history_kept_iff_populated :
    HistoryKept [7] [checkUpdates 41, checkUpdates 42] .start [(checkUpdates 0).toEntry] := by
  apply (history_kept_iff (by constructor <;> decide) (by decide) _ _).mpr
  refine ⟨⟨by decide, fun _ => ⟨checkUpdates 41, by decide⟩⟩, ?_⟩
  decide

/-- A table whose last row has the largest id. -/
theorem not_history_kept : ¬ ∀ (nodes : List ℤ) (rows : List AuditLog) (sequence : Sequence)
    (entries : List Entry), Valid nodes rows → (∀ r ∈ rows, r.createdAt ≠ none) →
    HistoryKept nodes rows sequence entries := by
  intro h
  have hvalid : Valid [7] [checkUpdates maxID] := by constructor <;> decide
  have hcreated : ∀ r ∈ [checkUpdates maxID], r.createdAt ≠ none := by decide
  have hkept := h [7] [checkUpdates maxID] .start [] hvalid hcreated
  exact absurd (idsFit_of_kept hvalid hcreated hkept).1 (by decide)

end Patchli.Db.AuditLogs
