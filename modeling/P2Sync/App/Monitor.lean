import Mathlib.Data.List.DropRight
import P2Sync.Core.Path

/-!
# What the terminal shows

The engine reports what it does in events, and the terminal keeps a state that it changes with each
of them. The state is a picture of the events that were handled: the journal holds the last lines,
a peer is shown as the last event about it says, and the transfers of a path are those that were
started since one of the path was last completed, whatever else happened (`AppState.shows`).

A transfer that fails reports nothing, so it stays on the screen.
-/

set_option autoImplicit false

namespace P2Sync

/-! ## Texts -/

/-- `truncate_end`: the first characters and three dots. The subtraction wraps, as in a release
build. -/
def truncateEnd (text : Str) (max : Nat) : Str :=
  if text.length ≤ max then text
  else text.take ((max + 2 ^ 64 - 3) % 2 ^ 64) ++ ['.', '.', '.']

/-- A number in decimal. -/
def decimal (value : Nat) : Str := Nat.toDigits 10 value

/-- `{:02}` -/
def twoDigits (value : Nat) : Str := if value < 10 then '0' :: decimal value else decimal value

/-- `chrono_now`, at a second. -/
def chronoNow (now : Nat) : Str :=
  twoDigits (now / 3600 % 24) ++ ':' :: twoDigits (now / 60 % 60) ++ ':' :: twoDigits (now % 60)

/-- What is displayed of peers, and of a quotient to one decimal place, which the program computes
in floating point. -/
structure Display (ι : Type) where
  peer : ι → Str
  tenths : Nat → Nat → Str

variable {ι : Type}

def Display.formatSize (display : Display ι) (bytes : Nat) : Str :=
  if bytes < 1024 then decimal bytes ++ " B".toList
  else if bytes < 1024 * 1024 then display.tenths bytes 1024 ++ " KB".toList
  else if bytes < 1024 * 1024 * 1024 then display.tenths bytes (1024 * 1024) ++ " MB".toList
  else display.tenths bytes (1024 * 1024 * 1024) ++ " GB".toList

/-! ## Events -/

inductive TransferDirection where
  | upload
  | download
deriving DecidableEq

/-- What the engine reports. -/
inductive SyncEvent (ι : Type) where
  | indexReady (fileCount totalSize : Nat)
  | peerConnected (peer : ι)
  | peerDisconnected (peer : ι)
  | listening (addr : Str)
  | transferStarted (path : RelPath) (direction : TransferDirection) (totalChunks : Nat)
  | chunkTransferred (path : RelPath) (direction : TransferDirection)
      (chunkIndex totalChunks : Nat)
  | transferComplete (path : RelPath) (direction : TransferDirection)
  | conflict (path conflictPath : RelPath)
  | remoteDelete (path : RelPath)
  | reconciliationComplete (peer : ι) (filesSynced : Nat)
  | log (message : Str)

/-- An event when it is handled: at an instant, and at a second of the wall clock. -/
structure Arrival (ι : Type) where
  event : SyncEvent ι
  instant : Nat
  now : Nat

/-- What an event writes into the journal. -/
def SyncEvent.message? (display : Display ι) : SyncEvent ι → Option Str
  | .indexReady fileCount totalSize => some (decimal fileCount ++ " files indexed (".toList ++
      display.formatSize totalSize ++ " total)".toList)
  | .conflict path conflictPath => some ("CONFLICT ".toList ++ path.toStringLossy ++
      " -> ".toList ++ conflictPath.toStringLossy)
  | .remoteDelete path => some ("synced deletion ".toList ++ path.toStringLossy)
  | .reconciliationComplete peer filesSynced => some ("sync with ".toList ++
      truncateEnd (display.peer peer) 15 ++ "... complete (".toList ++ decimal filesSynced ++
        " files)".toList)
  | .log message => some message
  | _ => none

/-! ## The state -/

structure PeerInfo (ι : Type) where
  id : ι
  lastSync : Nat
  connected : Bool

structure TransferInfo where
  path : RelPath
  direction : TransferDirection
  currentChunk : Nat
  totalChunks : Nat
deriving DecidableEq

structure AppState (ι : Type) where
  peerId : Str
  groupId : Str
  rootPath : Str
  fileCount : Nat := 0
  totalSize : Nat := 0
  listenAddrs : List Str := []
  peers : List (PeerInfo ι) := []
  transfers : List TransferInfo := []
  journal : List Str := []
  maxLogLines : Nat

namespace AppState

variable [DecidableEq ι] (display : Display ι)

omit [DecidableEq ι] in
/-- A line of the journal. -/
def line (now : Nat) (message : Str) : Str := chronoNow now ++ ' ' :: message

omit [DecidableEq ι] in
def addLog (state : AppState ι) (now : Nat) (message : Str) : AppState ι :=
  let journal := if state.maxLogLines ≤ state.journal.length then state.journal.tail
    else state.journal
  { state with journal := journal ++ [line now message] }

/-- The progress of the first transfer of a path. -/
def progress (path : RelPath) (chunkIndex : Nat) : List TransferInfo → List TransferInfo
  | [] => []
  | transfer :: rest =>
      if transfer.path = path then { transfer with currentChunk := chunkIndex + 1 } :: rest
      else transfer :: progress path chunkIndex rest

def handleEvent (state : AppState ι) (arrival : Arrival ι) : AppState ι :=
  match arrival.event with
  | .indexReady fileCount totalSize =>
      ({ state with fileCount := fileCount, totalSize := totalSize }).addLog arrival.now
        (decimal fileCount ++ " files indexed (".toList ++ display.formatSize totalSize ++
          " total)".toList)
  | .peerConnected peer =>
      if !(state.peers.any fun info => info.id = peer) then
        { state with peers := state.peers ++ [⟨peer, arrival.instant, true⟩] }
      else
        { state with peers := state.peers.map fun info =>
            if info.id = peer then { info with connected := true, lastSync := arrival.instant }
            else info }
  | .peerDisconnected peer =>
      { state with peers := state.peers.map fun info =>
          if info.id = peer then { info with connected := false } else info }
  | .listening addr => { state with listenAddrs := state.listenAddrs ++ [addr] }
  | .transferStarted path direction totalChunks =>
      { state with transfers := state.transfers ++ [⟨path, direction, 0, totalChunks⟩] }
  | .chunkTransferred path _ chunkIndex _ =>
      if state.transfers.any fun transfer => transfer.path = path then
        { state with
          transfers := progress path chunkIndex state.transfers
          peers := state.peers.map fun info =>
            if info.connected then { info with lastSync := arrival.instant } else info }
      else state
  | .transferComplete path _ =>
      { state with transfers := state.transfers.filter fun transfer => transfer.path ≠ path }
  | .conflict path conflictPath =>
      state.addLog arrival.now ("CONFLICT ".toList ++ path.toStringLossy ++ " -> ".toList ++
        conflictPath.toStringLossy)
  | .remoteDelete path =>
      state.addLog arrival.now ("synced deletion ".toList ++ path.toStringLossy)
  | .reconciliationComplete peer filesSynced =>
      state.addLog arrival.now ("sync with ".toList ++ truncateEnd (display.peer peer) 15 ++
        "... complete (".toList ++ decimal filesSynced ++ " files)".toList)
  | .log message => state.addLog arrival.now message

omit [DecidableEq ι] in
/-- The state before any event. -/
def new (peerId groupId rootPath : Str) (maxLogLines : Nat) : AppState ι where
  peerId := peerId
  groupId := groupId
  rootPath := rootPath
  maxLogLines := maxLogLines

/-- The state after events, the oldest first. -/
def handleAll (state : AppState ι) (history : List (Arrival ι)) : AppState ι :=
  history.foldl (handleEvent display) state

end AppState

/-! ## Pictures of a history -/

namespace SyncEvent

def connects [DecidableEq ι] (peer : ι) : SyncEvent ι → Bool
  | .peerConnected other => other = peer
  | _ => false

def disconnects [DecidableEq ι] (peer : ι) : SyncEvent ι → Bool
  | .peerDisconnected other => other = peer
  | _ => false

def completes (path : RelPath) : SyncEvent ι → Bool
  | .transferComplete other _ => other = path
  | _ => false

/-- The direction and the number of chunks of a transfer that starts. -/
def start? (path : RelPath) : SyncEvent ι → Option (TransferDirection × Nat)
  | .transferStarted other direction totalChunks =>
      if other = path then some (direction, totalChunks) else none
  | _ => none

def chunk? (path : RelPath) : SyncEvent ι → Option Nat
  | .chunkTransferred other _ chunkIndex _ => if other = path then some chunkIndex else none
  | _ => none

theorem chunk?_of_start? {event : SyncEvent ι} {path : RelPath}
    {start : TransferDirection × Nat} (starts : event.start? path = some start) :
    event.chunk? path = none := by
  cases event with
  | chunkTransferred => cases starts
  | _ => rfl

end SyncEvent

section Pictures

variable (history : List (Arrival ι))

/-- The lines that were written into the journal. -/
def linesOf (display : Display ι) : List Str :=
  history.filterMap fun arrival =>
    (arrival.event.message? display).map (AppState.line arrival.now)

/-- Whether a peer is shown, and as connected: as the last event about it says, once it was
connected. -/
def shownAs [DecidableEq ι] (peer : ι) : Option Bool :=
  if history.any fun arrival => arrival.event.connects peer then
    some ((history.reverse.find? fun arrival =>
      arrival.event.connects peer || arrival.event.disconnects peer).any fun arrival =>
        arrival.event.connects peer)
  else none

/-- What was handled since a transfer of a path was completed. -/
def recent (path : RelPath) : List (Arrival ι) :=
  (history.reverse.takeWhile fun arrival => !arrival.event.completes path).reverse

/-- How far the first of the recent transfers of a path has come. -/
def reached (path : RelPath) : Nat :=
  ((((recent history path).dropWhile fun arrival => (arrival.event.start? path).isNone).filterMap
    fun arrival => arrival.event.chunk? path).getLast?).elim 0 (· + 1)

/-- The recent transfers of a path. Only the first one shows progress. -/
def panel (path : RelPath) : List TransferInfo :=
  match (recent history path).filterMap fun arrival => arrival.event.start? path with
  | [] => []
  | (direction, totalChunks) :: others =>
      ⟨path, direction, reached history path, totalChunks⟩ ::
        others.map fun (direction, totalChunks) => ⟨path, direction, 0, totalChunks⟩

end Pictures

/-- The sizes of an index that is ready. -/
def SyncEvent.sizes? : SyncEvent ι → Option (Nat × Nat)
  | .indexReady fileCount totalSize => some (fileCount, totalSize)
  | _ => none

def SyncEvent.listening? : SyncEvent ι → Option Str
  | .listening addr => some addr
  | _ => none

/-- The peers of the screen, without their instants. -/
def AppState.shown (state : AppState ι) : List (ι × Bool) :=
  state.peers.map fun info => (info.id, info.connected)

/-- A state is the picture of a history. -/
structure AppState.Shows [DecidableEq ι] (display : Display ι) (history : List (Arrival ι))
    (state : AppState ι) : Prop where
  journal : state.journal = (linesOf history display).rtake (max 1 state.maxLogLines)
  once : (state.shown.map Prod.fst).Nodup
  peers : ∀ peer connected, (peer, connected) ∈ state.shown ↔ shownAs history peer = some connected
  transfers : ∀ path, (state.transfers.filter fun transfer => transfer.path = path) =
    panel history path
  sizes : (state.fileCount, state.totalSize) =
    ((history.filterMap fun arrival => arrival.event.sizes?).getLast?).getD (0, 0)
  addrs : state.listenAddrs = history.filterMap fun arrival => arrival.event.listening?

/-! ## One more event -/

section Journal

variable {display : Display ι} {history : List (Arrival ι)} {arrival : Arrival ι}

theorem linesOf_append_singleton : linesOf (history ++ [arrival]) display =
    linesOf history display ++
      ((arrival.event.message? display).map (AppState.line arrival.now)).toList := by
  rw [linesOf, List.filterMap_append, ← linesOf]
  cases message : arrival.event.message? display <;> simp [message]

namespace AppState

variable [DecidableEq ι] {state : AppState ι}

theorem handleEvent_journal : (state.handleEvent display arrival).journal =
    (arrival.event.message? display).elim state.journal fun message =>
      (state.addLog arrival.now message).journal := by
  obtain ⟨event, instant, now⟩ := arrival
  cases event with
  | peerConnected peer => simp only [handleEvent]; split <;> rfl
  | chunkTransferred path direction chunkIndex totalChunks => simp only [handleEvent]; split <;> rfl
  | _ => rfl

theorem handleEvent_maxLogLines :
    (state.handleEvent display arrival).maxLogLines = state.maxLogLines := by
  obtain ⟨event, instant, now⟩ := arrival
  cases event with
  | peerConnected peer => simp only [handleEvent]; split <;> rfl
  | chunkTransferred path direction chunkIndex totalChunks => simp only [handleEvent]; split <;> rfl
  | _ => rfl

omit [DecidableEq ι] in
/-- Of the lines of a full journal the first one goes. -/
theorem addLog_journal {lines : List Str} {now : Nat} {message : Str}
    (shows : state.journal = lines.rtake (max 1 state.maxLogLines)) :
    (state.addLog now message).journal =
      (lines ++ [line now message]).rtake (max 1 state.maxLogLines) := by
  obtain ⟨room, max_eq⟩ : ∃ room, max 1 state.maxLogLines = room + 1 :=
    ⟨max 1 state.maxLogLines - 1, by omega⟩
  have kept : (if state.maxLogLines ≤ state.journal.length then state.journal.tail
      else state.journal) = lines.rtake room := by
    rw [shows, max_eq, List.rtake, List.rtake, List.length_drop]
    split
    · rw [List.tail_drop]
      by_cases full : room + 1 ≤ lines.length
      · congr 1
        omega
      · rw [List.drop_eq_nil_of_le (by omega), List.drop_eq_nil_of_le (by omega)]
    · congr 1
      omega
  rw [max_eq, List.rtake_concat_succ, ← kept]
  rfl

end AppState

end Journal

section Peers

variable [DecidableEq ι] {display : Display ι} {history : List (Arrival ι)} {arrival : Arrival ι}
  {peer : ι}

theorem shownAs_append_singleton : shownAs (history ++ [arrival]) peer =
    if arrival.event.connects peer then some true
    else if arrival.event.disconnects peer then (shownAs history peer).map fun _ => false
    else shownAs history peer := by
  rw [shownAs, shownAs, List.any_append, List.reverse_append, List.reverse_singleton,
    List.singleton_append, List.find?_cons]
  by_cases connects : arrival.event.connects peer = true
  · simp [connects]
  · by_cases disconnects : arrival.event.disconnects peer = true
    · by_cases seen : (history.any fun arrival => arrival.event.connects peer) = true
      · simp [connects, disconnects, seen]
      · simp [connects, disconnects, seen]
    · simp [connects, disconnects]

end Peers

section Snoc

variable {history : List (Arrival ι)} {arrival : Arrival ι} {path : RelPath}

theorem recent_append_singleton : recent (history ++ [arrival]) path =
    if arrival.event.completes path then [] else recent history path ++ [arrival] := by
  rw [recent, List.reverse_append, List.reverse_singleton, List.singleton_append]
  by_cases completes : arrival.event.completes path = true
  · rw [List.takeWhile_cons_of_neg (by simp [completes]), if_pos completes, List.reverse_nil]
  · rw [List.takeWhile_cons_of_pos (by simp [completes]), if_neg completes, List.reverse_cons,
      recent]

theorem reached_of_started (lasts : arrival.event.completes path = false)
    (started : ∃ before ∈ recent history path, (before.event.start? path).isSome) :
    reached (history ++ [arrival]) path =
      (arrival.event.chunk? path).elim (reached history path) (· + 1) := by
  have nonempty : ((recent history path).dropWhile fun arrival =>
      (arrival.event.start? path).isNone).isEmpty = false := by
    rw [Bool.eq_false_iff, ne_eq, List.isEmpty_iff, List.dropWhile_eq_nil_iff]
    intro all
    obtain ⟨before, mem, some⟩ := started
    simp [Option.isNone_iff_eq_none.mp (all before mem)] at some
  rw [reached, recent_append_singleton, lasts, if_neg Bool.false_ne_true, List.dropWhile_append,
    nonempty, if_neg Bool.false_ne_true, List.filterMap_append, List.getLast?_append]
  cases chunk : arrival.event.chunk? path with
  | none => simp [chunk, reached]
  | some chunkIndex => simp [chunk]

/-- The first transfer of a path has not come far. -/
theorem reached_of_start (lasts : arrival.event.completes path = false)
    (none : ∀ before ∈ recent history path, before.event.start? path = none)
    (silent : arrival.event.chunk? path = Option.none) :
    reached (history ++ [arrival]) path = 0 := by
  have empty : ((recent history path).dropWhile fun arrival =>
      (arrival.event.start? path).isNone).isEmpty = true := by
    rw [List.isEmpty_iff, List.dropWhile_eq_nil_iff]
    intro before mem
    rw [none before mem]
    rfl
  rw [reached, recent_append_singleton, lasts, if_neg Bool.false_ne_true, List.dropWhile_append,
    empty, if_pos rfl]
  have dropped : ([arrival].dropWhile fun arrival =>
      (arrival.event.start? path).isNone).filterMap (fun arrival => arrival.event.chunk? path) =
        [] := by
    rw [List.filterMap_eq_nil_iff]
    intro other mem
    rw [List.mem_singleton.mp ((List.dropWhile_sublist _).subset mem)]
    exact silent
  rw [dropped]
  rfl

theorem panel_of_completes (completes : arrival.event.completes path = true) :
    panel (history ++ [arrival]) path = [] := by
  rw [panel, recent_append_singleton, if_pos completes]
  rfl

theorem panel_of_start {direction : TransferDirection} {totalChunks : Nat}
    (lasts : arrival.event.completes path = false)
    (start : arrival.event.start? path = some (direction, totalChunks))
    (silent : arrival.event.chunk? path = none) :
    panel (history ++ [arrival]) path =
      panel history path ++ [⟨path, direction, 0, totalChunks⟩] := by
  rw [panel, panel, recent_append_singleton, lasts, if_neg Bool.false_ne_true,
    List.filterMap_append]
  cases starts : (recent history path).filterMap fun arrival => arrival.event.start? path with
  | nil => simp [start, reached_of_start lasts (List.filterMap_eq_nil_iff.mp starts) silent]
  | cons first others =>
      have started : first ∈ (recent history path).filterMap fun arrival =>
        arrival.event.start? path := by simp [starts]
      obtain ⟨before, mem, eq⟩ := List.mem_filterMap.mp started
      simp [start, silent, reached_of_started lasts ⟨before, mem, by simp [eq]⟩]

theorem panel_of_other (lasts : arrival.event.completes path = false)
    (start : arrival.event.start? path = none) :
    panel (history ++ [arrival]) path = (arrival.event.chunk? path).elim (panel history path)
      fun chunkIndex => AppState.progress path chunkIndex (panel history path) := by
  rw [panel, panel, recent_append_singleton, lasts, if_neg Bool.false_ne_true,
    List.filterMap_append]
  cases starts : (recent history path).filterMap fun arrival => arrival.event.start? path with
  | nil => cases arrival.event.chunk? path <;> simp [start, AppState.progress]
  | cons first others =>
      have started : first ∈ (recent history path).filterMap fun arrival =>
        arrival.event.start? path := by simp [starts]
      obtain ⟨before, mem, eq⟩ := List.mem_filterMap.mp started
      have reached := reached_of_started lasts ⟨before, mem, by simp [eq]⟩
      cases chunk : arrival.event.chunk? path <;>
        simp [start, chunk, reached, AppState.progress]

end Snoc

section Transfers

variable {path other : RelPath} {chunkIndex : Nat} {transfers : List TransferInfo}

theorem progress_of_forall_ne (ne : ∀ transfer ∈ transfers, transfer.path ≠ path) :
    AppState.progress path chunkIndex transfers = transfers := by
  induction transfers with
  | nil => rfl
  | cons transfer rest ih =>
      rw [AppState.progress, if_neg (ne transfer List.mem_cons_self),
        ih fun transfer mem => ne transfer (List.mem_cons_of_mem _ mem)]

/-- The transfers of one path do not see the progress of another. -/
theorem filter_progress : (AppState.progress path chunkIndex transfers).filter
      (fun transfer => transfer.path = other) =
    if path = other then
      AppState.progress path chunkIndex (transfers.filter fun transfer => transfer.path = other)
    else transfers.filter fun transfer => transfer.path = other := by
  induction transfers with
  | nil => simp [AppState.progress]
  | cons transfer rest ih =>
      rw [AppState.progress]
      by_cases here : transfer.path = path
      · by_cases same : path = other
        · simp [AppState.progress, here, same]
        · simp [here, same]
      · rw [if_neg here]
        by_cases same : path = other
        · subst same
          rw [List.filter_cons_of_neg (by simpa using here), ih, if_pos rfl, if_pos rfl,
            List.filter_cons_of_neg (by simpa using here)]
        · rw [List.filter_cons, ih, if_neg same, if_neg same, List.filter_cons]

end Transfers

/-! ## The screen is a picture -/

namespace AppState

variable [DecidableEq ι] {display : Display ι} {history : List (Arrival ι)} {arrival : Arrival ι}
  {state : AppState ι}

/-- The entry of one peer is changed. -/
def mark (key : ι) (connected : Bool) (shown : List (ι × Bool)) : List (ι × Bool) :=
  shown.map fun entry => (entry.1, if entry.1 = key then connected else entry.2)

theorem map_fst_mark {key : ι} {connected : Bool} {shown : List (ι × Bool)} :
    (mark key connected shown).map Prod.fst = shown.map Prod.fst := by
  rw [mark, List.map_map]
  rfl

theorem mem_mark {key peer : ι} {now connected : Bool} {shown : List (ι × Bool)} :
    (peer, connected) ∈ mark key now shown ↔
      if key = peer then connected = now ∧ ∃ before, (peer, before) ∈ shown
      else (peer, connected) ∈ shown := by
  rw [mark, List.mem_map]
  by_cases this : key = peer
  · subst this
    rw [if_pos rfl]
    constructor
    · rintro ⟨⟨_, before⟩, mem, eq⟩
      obtain ⟨rfl, rfl⟩ := Prod.mk.inj eq
      exact ⟨if_pos rfl, before, mem⟩
    · rintro ⟨rfl, before, mem⟩
      exact ⟨(key, before), mem, by simp⟩
  · rw [if_neg this]
    constructor
    · rintro ⟨⟨_, before⟩, mem, eq⟩
      obtain ⟨rfl, rfl⟩ := Prod.mk.inj eq
      rw [if_neg (Ne.symm this)]
      exact mem
    · intro mem
      exact ⟨(peer, connected), mem, by simp [Ne.symm this]⟩

/-- Of what is shown of the peers, an event changes what it says about its own. -/
theorem handleEvent_shown (once : (state.shown.map Prod.fst).Nodup) :
    (((state.handleEvent display arrival).shown.map Prod.fst).Nodup) ∧
      ∀ peer connected, (peer, connected) ∈ (state.handleEvent display arrival).shown ↔
        if arrival.event.connects peer then connected = true
        else if arrival.event.disconnects peer then
          connected = false ∧ ∃ before, (peer, before) ∈ state.shown
        else (peer, connected) ∈ state.shown := by
  obtain ⟨event, instant, now⟩ := arrival
  cases event with
  | peerConnected other =>
      by_cases seen : (state.peers.any fun info => info.id = other) = true
      · have shown_eq : (state.handleEvent display ⟨.peerConnected other, instant, now⟩).shown =
            mark other true state.shown := by
          simp only [handleEvent, seen, Bool.not_true, if_neg Bool.false_ne_true, shown, mark,
            List.map_map]
          refine List.map_congr_left fun info _ => ?_
          by_cases this : info.id = other <;> simp [this]
        obtain ⟨info, mem, id_eq⟩ : ∃ info ∈ state.peers, info.id = other := by simpa using seen
        have shown_mem : (other, info.connected) ∈ state.shown :=
          List.mem_map.mpr ⟨info, mem, by rw [id_eq]⟩
        rw [shown_eq, map_fst_mark]
        refine ⟨once, fun peer connected => ?_⟩
        rw [mem_mark]
        by_cases this : other = peer
        · subst this
          have listed : ∃ before, (other, before) ∈ state.shown := ⟨_, shown_mem⟩
          simp only [SyncEvent.connects, if_true, decide_true, listed, and_true]
        · simp [SyncEvent.connects, SyncEvent.disconnects, this]
      · have shown_eq : (state.handleEvent display ⟨.peerConnected other, instant, now⟩).shown =
            state.shown ++ [(other, true)] := by
          simp [handleEvent, seen, shown]
        have unseen : ∀ connected, (other, connected) ∉ state.shown := by
          intro connected mem
          obtain ⟨info, info_mem, eq⟩ := List.mem_map.mp mem
          exact seen (List.any_eq_true.mpr ⟨info, info_mem, by simp [(Prod.mk.inj eq).1]⟩)
        rw [shown_eq]
        refine ⟨?_, fun peer connected => ?_⟩
        · rw [List.map_append, List.nodup_append]
          refine ⟨once, List.nodup_singleton _, ?_⟩
          rintro peer mem _ other_mem rfl
          obtain ⟨⟨found, connected⟩, entry_mem, eq⟩ := List.mem_map.mp mem
          obtain rfl : found = other := eq.trans (List.mem_singleton.mp other_mem)
          exact unseen connected entry_mem
        · by_cases this : other = peer
          · subst this
            simp [SyncEvent.connects, unseen]
          · simp [SyncEvent.connects, SyncEvent.disconnects, this, Ne.symm this]
  | peerDisconnected other =>
      have shown_eq : (state.handleEvent display ⟨.peerDisconnected other, instant, now⟩).shown =
          mark other false state.shown := by
        simp only [handleEvent, shown, mark, List.map_map]
        refine List.map_congr_left fun info _ => ?_
        by_cases this : info.id = other <;> simp [this]
      rw [shown_eq, map_fst_mark]
      refine ⟨once, fun peer connected => ?_⟩
      rw [mem_mark]
      simp only [SyncEvent.connects, SyncEvent.disconnects, decide_eq_true_eq]
      rfl
  | chunkTransferred path direction chunkIndex totalChunks =>
      have shown_eq : (state.handleEvent display
          ⟨.chunkTransferred path direction chunkIndex totalChunks, instant, now⟩).shown =
            state.shown := by
        simp only [handleEvent]
        split
        · simp only [shown, List.map_map]
          refine List.map_congr_left fun info _ => ?_
          by_cases this : info.connected <;> simp [this]
        · rfl
      rw [shown_eq]
      exact ⟨once, fun peer connected => Iff.rfl⟩
  | _ => exact ⟨once, fun peer connected => Iff.rfl⟩

theorem handleEvent_transfers (path : RelPath) :
    ((state.handleEvent display arrival).transfers.filter fun transfer => transfer.path = path) =
      if arrival.event.completes path then []
      else match arrival.event.start? path with
        | some (direction, totalChunks) =>
            (state.transfers.filter fun transfer => transfer.path = path) ++
              [⟨path, direction, 0, totalChunks⟩]
        | none => (arrival.event.chunk? path).elim
            (state.transfers.filter fun transfer => transfer.path = path) fun chunkIndex =>
              progress path chunkIndex
                (state.transfers.filter fun transfer => transfer.path = path) := by
  obtain ⟨event, instant, now⟩ := arrival
  cases event with
  | peerConnected other => simp only [handleEvent]; split <;> rfl
  | transferStarted other direction totalChunks =>
      by_cases this : other = path <;>
        simp [handleEvent, SyncEvent.completes, SyncEvent.start?, SyncEvent.chunk?, this]
  | chunkTransferred other direction chunkIndex totalChunks =>
      have transfers_eq : (state.handleEvent display
          ⟨.chunkTransferred other direction chunkIndex totalChunks, instant, now⟩).transfers =
            progress other chunkIndex state.transfers := by
        simp only [handleEvent]
        split
        · rfl
        · next none => exact (progress_of_forall_ne (by simpa using none)).symm
      rw [transfers_eq, filter_progress]
      by_cases this : other = path <;>
        simp [SyncEvent.completes, SyncEvent.start?, SyncEvent.chunk?, this]
  | transferComplete other direction =>
      by_cases this : other = path
      · simp [handleEvent, SyncEvent.completes, this, List.filter_filter]
      · have kept : ∀ transfer : TransferInfo,
            (decide (transfer.path = path) && decide (transfer.path ≠ other)) =
              decide (transfer.path = path) := by
          intro transfer
          by_cases at_path : transfer.path = path
          · simp [at_path, Ne.symm this]
          · simp [at_path]
        simp only [handleEvent, List.filter_filter, kept]
        simp [SyncEvent.completes, SyncEvent.start?, SyncEvent.chunk?, this]
  | _ => rfl

theorem handleEvent_sizes : let after := state.handleEvent display arrival
    (after.fileCount, after.totalSize) =
      arrival.event.sizes?.getD (state.fileCount, state.totalSize) := by
  obtain ⟨event, instant, now⟩ := arrival
  cases event with
  | peerConnected other => simp only [handleEvent]; split <;> rfl
  | chunkTransferred path direction chunkIndex totalChunks =>
      simp only [handleEvent]; split <;> rfl
  | _ => rfl

theorem handleEvent_listenAddrs : (state.handleEvent display arrival).listenAddrs =
    state.listenAddrs ++ arrival.event.listening?.toList := by
  obtain ⟨event, instant, now⟩ := arrival
  cases event with
  | peerConnected other => simp only [handleEvent]; split <;> simp [SyncEvent.listening?]
  | chunkTransferred path direction chunkIndex totalChunks =>
      simp only [handleEvent]; split <;> simp [SyncEvent.listening?]
  | listening addr => rfl
  | _ => exact (List.append_nil _).symm

theorem Shows.handleEvent (shows : state.Shows display history) :
    (state.handleEvent display arrival).Shows display (history ++ [arrival]) where
  journal := by
    rw [handleEvent_journal, handleEvent_maxLogLines, linesOf_append_singleton]
    cases arrival.event.message? display with
    | none => simpa using shows.journal
    | some message => exact addLog_journal shows.journal
  once := (handleEvent_shown shows.once).1
  peers := by
    intro peer connected
    rw [(handleEvent_shown shows.once).2, shownAs_append_singleton]
    split
    · simp [eq_comm]
    · split
      · simp only [shows.peers]
        cases shownAs history peer <;> simp [eq_comm]
      · exact shows.peers peer connected
  transfers := by
    intro path
    rw [handleEvent_transfers, shows.transfers]
    by_cases completes : arrival.event.completes path = true
    · rw [if_pos completes, panel_of_completes completes]
    · have lasts := Bool.eq_false_iff.mpr completes
      rw [if_neg completes]
      cases start : arrival.event.start? path with
      | none => exact (panel_of_other lasts start).symm
      | some started => exact (panel_of_start lasts start (SyncEvent.chunk?_of_start? start)).symm
  sizes := by
    rw [handleEvent_sizes, List.filterMap_append, List.getLast?_append, shows.sizes]
    cases sizes : arrival.event.sizes? <;> simp [sizes]
  addrs := by
    rw [handleEvent_listenAddrs, List.filterMap_append, ← shows.addrs]
    cases listening : arrival.event.listening? <;> simp [listening]

theorem shows_new {peerId groupId rootPath : Str} {maxLogLines : Nat} :
    (new peerId groupId rootPath maxLogLines : AppState ι).Shows display [] where
  journal := by simp [new, linesOf, List.rtake]
  once := List.nodup_nil
  peers := by simp [new, shown, shownAs]
  transfers := by simp [new, panel, recent]
  sizes := rfl
  addrs := rfl

/-- After any events the terminal shows what they say. -/
theorem shows (display : Display ι) (peerId groupId rootPath : Str) (maxLogLines : Nat)
    (history : List (Arrival ι)) :
    ((new peerId groupId rootPath maxLogLines).handleAll display history).Shows display
      history := by
  induction history using List.reverseRecOn with
  | nil => exact shows_new
  | append_singleton history arrival ih =>
      rw [handleAll, List.foldl_append]
      exact ih.handleEvent

end AppState

end P2Sync
