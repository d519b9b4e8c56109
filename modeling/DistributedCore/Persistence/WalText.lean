import DistributedCore.Library.Json
import DistributedCore.Persistence.WriteAheadLog

/-!
# The text of a write-ahead log

On disk a log is a text file with one JSON object a line. The writer opens the file for appending
and never looks at its last line; the reader splits the text at the newlines and skips what is not
JSON. This module has the file as its text, and relates it to the file as the list of its
entries: as long as every line is complete, the two agree.

Source: `src/persistence/wal/WALFile.ts`, `src/persistence/wal/WALWriter.ts`,
`src/persistence/wal/WALReader.ts`.
-/

namespace DistributedCore.Entity

open Json

def Operation.name : Operation → String
  | .create => "CREATE"
  | .update => "UPDATE"
  | .delete => "DELETE"
  | .transfer => "TRANSFER"

def Operation.ofName (name : String) : Option Operation :=
  if name = "CREATE" then some .create
  else if name = "UPDATE" then some .update
  else if name = "DELETE" then some .delete
  else if name = "TRANSFER" then some .transfer
  else none

@[simp] theorem Operation.ofName_name (op : Operation) : Operation.ofName op.name = some op := by
  cases op <;> rfl

namespace EntityUpdate

def toJson (u : EntityUpdate String Json) : Json :=
  .object <|
    [("entityId", .string u.entityId)] ++
    (u.ownerNodeId.map fun owner => ("ownerNodeId", string owner)).toList ++
    [("version", .number (.ofInt u.version)), ("timestamp", .number (.ofNat u.timestamp)),
      ("operation", .string u.operation.name)] ++
    (u.metadata.map fun m => ("metadata", object m.entries)).toList ++
    (u.previousVersion.map fun n => ("previousVersion", Json.number (.ofInt n))).toList

def ofJson (v : Json) : Option (EntityUpdate String Json) := do
  some
    { entityId := ← (← v.member "entityId").asString
      ownerNodeId := (v.member "ownerNodeId").bind asString
      version := ← (← v.member "version").asInt
      timestamp := ← (← v.member "timestamp").asNat
      operation := ← Operation.ofName (← (← v.member "operation").asString)
      metadata := (v.member "metadata").bind asRecord
      previousVersion := (v.member "previousVersion").bind asInt }

theorem ofJson_toJson (u : EntityUpdate String Json) : ofJson u.toJson = some u := by
  obtain ⟨entityId, owner, version, timestamp, operation, metadata, previousVersion⟩ := u
  cases owner <;> cases metadata <;> cases previousVersion <;>
    simp [toJson, ofJson, member, asString, asInt, asNat, List.lookup_cons]

end EntityUpdate

end DistributedCore.Entity

namespace DistributedCore.Persistence

open Entity Json

/-! ### Lines -/

namespace WALEntry

variable (entry : WALEntry String Json)

def toJson : Json :=
  .object
    [("logSequenceNumber", .number (.ofNat entry.logSequenceNumber)),
      ("timestamp", .number (.ofNat entry.timestamp)), ("checksum", .string entry.checksum),
      ("data", entry.data.toJson)]

def ofJson (v : Json) : Option (WALEntry String Json) := do
  some
    { logSequenceNumber := ← (← v.member "logSequenceNumber").asNat
      timestamp := ← (← v.member "timestamp").asNat
      data := ← EntityUpdate.ofJson (← v.member "data")
      checksum := ← (← v.member "checksum").asString }

theorem ofJson_toJson : ofJson entry.toJson = some entry := by
  simp [toJson, ofJson, member, asString, asNat, List.lookup_cons, EntityUpdate.ofJson_toJson]

def line : List Char := entry.toJson.stringify ++ ['\n']

end WALEntry

abbrev WALText := List Char

/-- The configuration, where sizes are those of the text. -/
structure WALTextConfig where
  maxFileSize : ℕ
  calculateChecksum : EntityUpdate String Json → String

def byteSize (text : List Char) : ℕ := (text.map Char.utf8Size).sum

def WALTextConfig.toWALConfig (config : WALTextConfig) : WALConfig String Json where
  maxFileSize := config.maxFileSize
  calculateChecksum := config.calculateChecksum
  lineLength := fun entry => byteSize entry.line

/-! ### The reader -/

namespace WALText

def parseEntry (line : List Char) : Option (WALEntry String Json) :=
  (parse line).bind WALEntry.ofJson

def entries (content : WALText) : WALFile String Json :=
  ((content.splitOn '\n').filter fun line => line.any fun c => !c.isWhitespace).filterMap parseEntry

def readEntries (content : WALText) (startLSN endLSN : Option ℕ) : List (WALEntry String Json) :=
  (entries content).readEntries startLSN endLSN

def getLastLSN (content : WALText) : ℕ := (entries content).getLastLSN

def readAll (config : WALTextConfig) (content : WALText) : List (WALEntry String Json) :=
  (readEntries content none none).filter (validateEntry config.toWALConfig)

def fileText (file : WALFile String Json) : WALText := file.flatMap WALEntry.line

end WALText

/-! ### The writer -/

/-- The writer, the text of the file and the entries that were appended. -/
structure WALTextLog where
  writer : WALWriter
  content : WALText
  appended : List (WALEntry String Json)

/-- A call of `append`: the update, the clock, and the reason if the file system refuses the
write. -/
structure AppendRequest where
  update : EntityUpdate String Json
  now : ℕ
  fault : Option String

namespace WALTextLog

def opened (content : WALText) : WALTextLog where
  writer := if WALText.getLastLSN content > 0 then ⟨WALText.getLastLSN content, true⟩ else ⟨0, true⟩
  content := content
  appended := []

def append (config : WALTextConfig) (log : WALTextLog) (request : AppendRequest) :
    WALTextLog × Except WALError ℕ :=
  let (w, entry) := log.writer.createEntry config.toWALConfig request.update request.now
  let log := { log with writer := w }
  if !validateEntry config.toWALConfig entry then (log, .error .invalidChecksum)
  else
    let currentSize := byteSize log.content
    if currentSize > config.maxFileSize then
      (log, .error (.sizeLimitExceeded currentSize config.maxFileSize))
    else if !w.isOpen then (log, .error .notOpen)
    else
      match request.fault with
      | some reason => (log, .error (.writeFailed reason))
      | none =>
        ({ log with
          content := log.content ++ entry.line
          appended := log.appended ++ [entry] }, .ok entry.logSequenceNumber)

def run (config : WALTextConfig) (log : WALTextLog) (requests : List AppendRequest) : WALTextLog :=
  requests.foldl (fun log request => (log.append config request).1) log

end WALTextLog

/-! ### Complete lines -/

namespace WALEntry

variable (entry : WALEntry String Json)

theorem newline_notMem_stringify_toJson : '\n' ∉ entry.toJson.stringify :=
  newline_notMem_stringify _

theorem parseEntry_stringify : WALText.parseEntry entry.toJson.stringify = some entry := by
  rw [WALText.parseEntry, parse_stringify, Option.bind_some, ofJson_toJson]

theorem continuation_stringify : Json.Continuation entry.toJson.stringify := by
  refine continuation_object rfl rfl ?_ _ _
  exact ⟨by decide, by decide, by decide, by rintro (h | h) <;> exact absurd h (by decide)⟩

theorem stringify_toJson_cons : ∃ l, entry.toJson.stringify = '{' :: l := ⟨_, stringify_object _⟩

end WALEntry

namespace WALText

theorem entries_append_newline (l : List Char) (content : WALText) :
    entries (l ++ '\n' :: content) = entries l ++ entries content := by
  rw [entries, List.splitOn_append_cons_self, List.filter_append, List.filterMap_append]
  rfl

theorem entries_nil : entries [] = [] := rfl

theorem entries_of_cons {l : List Char} (hl : '\n' ∉ '{' :: l) :
    entries ('{' :: l) = (parseEntry ('{' :: l)).toList := by
  rw [entries, List.splitOn_eq_singleton hl, List.filter_cons_of_pos (by simp)]
  cases h : parseEntry ('{' :: l) <;> simp [h]

variable (entry : WALEntry String Json)

theorem entries_line (content : WALText) :
    entries (entry.line ++ content) = entry :: entries content := by
  have hnewline := entry.newline_notMem_stringify_toJson
  have hread := entry.parseEntry_stringify
  obtain ⟨l, hl⟩ := entry.stringify_toJson_cons
  rw [WALEntry.line, List.append_assoc, List.singleton_append, entries_append_newline]
  rw [hl] at hnewline hread ⊢
  rw [entries_of_cons hnewline, hread]
  rfl

variable (config : WALTextConfig) (file : WALFile String Json)

theorem entries_fileText_append (content : WALText) :
    entries (fileText file ++ content) = file ++ entries content := by
  induction file with
  | nil => rfl
  | cons entry _ ih =>
    rw [fileText, List.flatMap_cons, List.append_assoc, entries_line]
    exact congrArg (entry :: ·) ih

theorem entries_fileText : entries (fileText file) = file := by
  have h := entries_fileText_append file []
  rwa [List.append_nil, entries_nil, List.append_nil] at h

theorem fileText_concat : fileText (file ++ [entry]) = fileText file ++ entry.line := by
  simp [fileText]

theorem byteSize_fileText : byteSize (fileText file) = file.getSize config.toWALConfig := by
  induction file with
  | nil => rfl
  | cons entry file ih =>
    have hsplit : byteSize (fileText (entry :: file)) =
        byteSize entry.line + byteSize (fileText file) := by
      simp [byteSize, fileText]
    rw [hsplit, ih]
    rfl

theorem readAll_fileText : readAll config (fileText file) = file.readAll config.toWALConfig := by
  rw [readAll, readEntries, entries_fileText]
  rfl

end WALText

/-! ### Appends -/

namespace WALTextLog

variable (config : WALTextConfig)

def nextEntry (log : WALTextLog) (request : AppendRequest) : WALEntry String Json :=
  (log.writer.createEntry config.toWALConfig request.update request.now).2

theorem append_cases (log : WALTextLog) (request : AppendRequest) :
    (log.append config request).1.writer =
        { log.writer with currentLSN := log.writer.currentLSN + 1 } ∧
      ((log.append config request).1.content = log.content ∧
          (log.append config request).1.appended = log.appended ∨
        byteSize log.content ≤ config.maxFileSize ∧ (log.append config request).1.content =
            log.content ++ (log.nextEntry config request).line ∧
          (log.append config request).1.appended =
            log.appended ++ [log.nextEntry config request]) := by
  have hvalid := validateEntry_createEntry config.toWALConfig log.writer request.update request.now
  have hwriter : (log.writer.createEntry config.toWALConfig request.update request.now).1 =
      { log.writer with currentLSN := log.writer.currentLSN + 1 } := rfl
  simp only [append, hvalid, hwriter, nextEntry]
  split_ifs with hfalse hsize _
  · cases hfalse
  · exact ⟨rfl, .inl ⟨rfl, rfl⟩⟩
  · exact ⟨rfl, .inl ⟨rfl, rfl⟩⟩
  · cases request.fault with
    | some => exact ⟨rfl, .inl ⟨rfl, rfl⟩⟩
    | none => exact ⟨rfl, .inr ⟨not_lt.mp hsize, rfl, rfl⟩⟩

variable {log : WALTextLog}

theorem append_of_size_le
    (hsize : byteSize log.content ≤ config.maxFileSize) (hopen : log.writer.isOpen = true)
    (update : EntityUpdate String Json) (now : ℕ) :
    (log.append config ⟨update, now, none⟩).1.content =
        log.content ++ (log.nextEntry config ⟨update, now, none⟩).line ∧
      (log.append config ⟨update, now, none⟩).1.appended =
        log.appended ++ [log.nextEntry config ⟨update, now, none⟩] := by
  have hvalid := validateEntry_createEntry config.toWALConfig log.writer update now
  have hopen' : (log.writer.createEntry config.toWALConfig update now).1.isOpen = true := hopen
  simp [append, hvalid, hopen', nextEntry, not_lt.mpr hsize]

theorem opened_writer (content : WALText) :
    (opened content).writer = ⟨WALText.getLastLSN content, true⟩ := by
  rw [opened]
  split_ifs with h
  · rfl
  · rw [Nat.eq_zero_of_not_pos h]

/-- **The text refines the list of entries.** On a file of complete lines an append writes, returns
and fails as it does on the list of the entries. -/
theorem append_fileText {file : WALFile String Json}
    (hfile : log.content = WALText.fileText file) (request : AppendRequest) :
    (log.append config request).1.writer = (log.writer.append config.toWALConfig file request.update
        request.now request.fault).1 ∧
      match (log.writer.append config.toWALConfig file request.update request.now request.fault).2
      with
      | .error err => (log.append config request).2 = .error err ∧
          (log.append config request).1.content = WALText.fileText file
      | .ok (file', lsn) => (log.append config request).2 = .ok lsn ∧
          (log.append config request).1.content = WALText.fileText file' := by
  have hvalid := validateEntry_createEntry config.toWALConfig log.writer request.update request.now
  have hopen : (log.writer.createEntry config.toWALConfig request.update request.now).1.isOpen =
      log.writer.isOpen := rfl
  have hsize : byteSize log.content = file.getSize config.toWALConfig := by
    rw [hfile, WALText.byteSize_fileText config]
  simp only [append, WALWriter.append, hvalid, hopen, hsize, Bool.not_true, Bool.false_eq_true,
    ↓reduceIte, show config.toWALConfig.maxFileSize = config.maxFileSize from rfl]
  split_ifs
  · exact ⟨rfl, rfl, hfile⟩
  · exact ⟨rfl, rfl, hfile⟩
  · cases request.fault with
    | some => exact ⟨rfl, rfl, hfile⟩
    | none => exact ⟨rfl, rfl, by rw [hfile, WALText.fileText_concat]⟩

/-- Every appended entry is a line of the file. -/
structure Complete (config : WALTextConfig) (log : WALTextLog) : Prop where
  lines : ∃ file, log.content = WALText.fileText file ∧ ∀ entry ∈ log.appended, entry ∈ file
  valid : ∀ entry ∈ log.appended, validateEntry config.toWALConfig entry = true

theorem Complete.append {config : WALTextConfig} (h : log.Complete config)
    (request : AppendRequest) : (log.append config request).1.Complete config := by
  obtain ⟨file, hcontent, hmem⟩ := h.lines
  obtain ⟨-, ⟨hcontent', happended⟩ | ⟨-, hcontent', happended⟩⟩ := log.append_cases config request
  · exact ⟨⟨file, hcontent'.trans hcontent, happended ▸ hmem⟩, happended ▸ h.valid⟩
  · have hvalid : validateEntry config.toWALConfig (log.nextEntry config request) = true :=
      validateEntry_createEntry _ _ _ _
    constructor
    · refine ⟨file ++ [log.nextEntry config request], ?_, ?_⟩
      · rw [hcontent', hcontent, WALText.fileText_concat]
      · rw [happended]
        exact fun entry he => List.mem_append.mpr ((List.mem_append.mp he).imp_left (hmem entry))
    · rw [happended]
      intro entry he
      rcases List.mem_append.mp he with he | he
      · exact h.valid entry he
      · exact List.mem_singleton.mp he ▸ hvalid

theorem Complete.run {config : WALTextConfig} :
    {log : WALTextLog} → log.Complete config → (requests : List AppendRequest) →
      (log.run config requests).Complete config
  | _, h, [] => h
  | _, h, request :: requests => (h.append request).run requests

theorem Complete.mem_readAll {config : WALTextConfig} (h : log.Complete config)
    {entry : WALEntry String Json} (he : entry ∈ log.appended) :
    entry ∈ WALText.readAll config log.content := by
  obtain ⟨file, hcontent, hmem⟩ := h.lines
  rw [hcontent, WALText.readAll_fileText, WALFile.readAll, List.mem_filter, WALFile.mem_readEntries]
  exact ⟨hmem entry he, h.valid entry he⟩

theorem appended_run_of_size_gt {config : WALTextConfig} :
    {log : WALTextLog} → config.maxFileSize < byteSize log.content →
      (requests : List AppendRequest) → (log.run config requests).appended = log.appended
  | _, _, [] => rfl
  | log, h, request :: requests => by
    obtain ⟨-, ⟨hcontent, happended⟩ | ⟨hsize, -⟩⟩ := log.append_cases config request
    · rw [run, List.foldl_cons, ← run, appended_run_of_size_gt (hcontent ▸ h), happended]
    · exact absurd h (not_lt.mpr hsize)

/-! ### A line that is cut off -/

variable (file : WALFile String Json) {torn : WALEntry String Json} {p : List Char}

theorem entries_torn
    (hnil : p ≠ []) (hp : p <+: torn.toJson.stringify) (entry : WALEntry String Json) :
    WALText.entries (WALText.fileText file ++ p ++ entry.line) = file := by
  have hcontinues : Json.Continuation entry.toJson.stringify := entry.continuation_stringify
  have hread : WALText.parseEntry (p ++ entry.toJson.stringify) = none := by
    rw [WALText.parseEntry, parse_torn_append hcontinues _ hnil hp, Option.bind_none]
  have hnewline : '\n' ∉ p ++ entry.toJson.stringify := by
    rw [List.mem_append, not_or]
    exact ⟨fun h => torn.newline_notMem_stringify_toJson (hp.subset h),
      entry.newline_notMem_stringify_toJson⟩
  obtain ⟨l, hl⟩ : ∃ l, p ++ entry.toJson.stringify = '{' :: l := by
    obtain ⟨l, hl⟩ := torn.stringify_toJson_cons
    rw [hl] at hp
    obtain rfl | ⟨q, rfl, -⟩ := List.prefix_cons_iff.mp hp
    · exact absurd rfl hnil
    · exact ⟨_, rfl⟩
  rw [List.append_assoc, WALText.entries_fileText_append, WALEntry.line, ← List.append_assoc,
    WALText.entries_append_newline, WALText.entries_nil]
  rw [hl] at hread hnewline ⊢
  rw [WALText.entries_of_cons hnewline, hread]
  simp

theorem nextEntry_notMem_readAll_torn
    (hnil : p ≠ []) (hp : p <+: torn.toJson.stringify) (request : AppendRequest) :
    (opened (WALText.fileText file ++ p)).nextEntry config request ∉
      WALText.readAll config (WALText.fileText file ++ p ++
        ((opened (WALText.fileText file ++ p)).nextEntry config request).line) := by
  intro hmem
  rw [WALText.readAll, WALText.readEntries, entries_torn file hnil hp, List.mem_filter,
    WALFile.mem_readEntries] at hmem
  have hlsn : ((opened (WALText.fileText file ++ p)).nextEntry config request).logSequenceNumber =
      WALText.getLastLSN (WALText.fileText file ++ p) + 1 := by
    rw [nextEntry, opened_writer]
    rfl
  -- the LSN is new, so the entry is not one of the file
  have hle := WALFile.le_getLastLSN (List.mem_append_left (WALText.entries p) hmem.1)
  rw [← WALText.entries_fileText_append, ← WALText.getLastLSN, hlsn] at hle
  exact absurd hle (Nat.not_succ_le_self _)

/-- **What a crash leaves behind.** A file has complete lines and then a start `p` of a further
line. Whatever is appended after a writer has been initialised on it, the reader returns all of
it, if and only if nothing of the further line is there, or the file is already beyond the size
limit, so that nothing can be appended. -/
theorem returns_appends_iff
    (torn : WALEntry String Json) (p : List Char) (hp : p <+: torn.line) (hproper : p ≠ torn.line) :
    (∀ requests, ∀ entry ∈ ((opened (WALText.fileText file ++ p)).run config requests).appended,
        entry ∈ WALText.readAll config
          ((opened (WALText.fileText file ++ p)).run config requests).content) ↔
      p = [] ∨ config.maxFileSize < byteSize (WALText.fileText file ++ p) := by
  constructor
  · intro hreturns
    by_contra hcond
    obtain ⟨hnil, hsize⟩ := not_or.mp hcond
    -- one append is enough: its line is joined to the start of the other one
    let request : AppendRequest := ⟨torn.data, 0, none⟩
    let log := opened (WALText.fileText file ++ p)
    have hopen : log.writer.isOpen = true := by rw [opened_writer]
    obtain ⟨hcontent, happended⟩ := append_of_size_le config (not_lt.mp hsize) hopen torn.data 0
    have hp' : p <+: torn.toJson.stringify := (List.prefix_concat_iff.mp hp).resolve_left hproper
    have hmem : log.nextEntry config request ∈ (log.run config [request]).appended := by
      rw [run, List.foldl_cons, List.foldl_nil, happended]
      exact List.mem_append_right _ List.mem_cons_self
    have hread := hreturns [request] _ hmem
    rw [run, List.foldl_cons, List.foldl_nil, hcontent] at hread
    exact nextEntry_notMem_readAll_torn config file hnil hp' request hread
  · rintro (rfl | hsize) requests entry he
    · have hcomplete : (opened (WALText.fileText file ++ [])).Complete config :=
        ⟨⟨file, List.append_nil _, fun _ h => nomatch h⟩, fun _ h => nomatch h⟩
      exact (hcomplete.run requests).mem_readAll he
    · rw [appended_run_of_size_gt hsize] at he
      exact nomatch he

def createEntryOf (lsn : ℕ) : WALEntry String Json where
  logSequenceNumber := lsn
  timestamp := 0
  data :=
    { entityId := "a"
      ownerNodeId := some "n1"
      version := 1
      timestamp := 0
      operation := .create }
  checksum := ""

def smallConfig : WALTextConfig := ⟨1024, fun _ => ""⟩

theorem brace_isPrefix_line (lsn : ℕ) :
    ['{'] <+: (createEntryOf lsn).line ∧ ['{'] ≠ (createEntryOf lsn).line := by
  obtain ⟨l, hl⟩ := (createEntryOf lsn).stringify_toJson_cons
  rw [WALEntry.line, hl]
  exact ⟨⟨l ++ ['\n'], rfl⟩, by simp⟩

/-- After one complete line and the first character of a second one, the reader does not return
everything that is appended, for the file is within its limit. -/
theorem returns_appends_iff_brace :
    (['{'] <+: (createEntryOf 2).line ∧ ['{'] ≠ (createEntryOf 2).line) ∧
      ((∀ requests, ∀ entry ∈ ((opened (WALText.fileText [createEntryOf 1] ++ ['{'])).run
          smallConfig requests).appended,
          entry ∈ WALText.readAll smallConfig
            ((opened (WALText.fileText [createEntryOf 1] ++ ['{'])).run
              smallConfig requests).content) ↔
        ['{'] = [] ∨
          smallConfig.maxFileSize < byteSize (WALText.fileText [createEntryOf 1] ++ ['{'])) :=
  ⟨brace_isPrefix_line 2, returns_appends_iff smallConfig [createEntryOf 1] (createEntryOf 2) ['{']
    (brace_isPrefix_line 2).1 (brace_isPrefix_line 2).2⟩

/-- A crash after the first character of a line, and then an append: the append succeeds, and the
reader does not return its entry. -/
theorem append_lost_after_torn_line :
    ['{'] <+: (createEntryOf 1).line ∧ ['{'] ≠ (createEntryOf 1).line ∧
      ∃ requests, ∃ entry ∈ ((opened (WALText.fileText [] ++ ['{'])).run
          smallConfig requests).appended,
        entry ∉ WALText.readAll smallConfig
          ((opened (WALText.fileText [] ++ ['{'])).run smallConfig requests).content := by
  let request : AppendRequest := ⟨(createEntryOf 1).data, 0, none⟩
  let log := opened (WALText.fileText [] ++ ['{'])
  have hstart := brace_isPrefix_line 1
  obtain ⟨hcontent, happended⟩ := append_of_size_le smallConfig
    (show byteSize log.content ≤ smallConfig.maxFileSize by decide) (by rw [opened_writer])
    (createEntryOf 1).data 0
  refine ⟨hstart.1, hstart.2, [request], log.nextEntry smallConfig request, ?_, ?_⟩
  · rw [run, List.foldl_cons, List.foldl_nil, happended]
    exact List.mem_append_right _ List.mem_cons_self
  · rw [run, List.foldl_cons, List.foldl_nil, hcontent]
    exact nextEntry_notMem_readAll_torn smallConfig [] (List.cons_ne_nil _ _)
      ((List.prefix_concat_iff.mp hstart.1).resolve_left hstart.2) request

end WALTextLog

end DistributedCore.Persistence
