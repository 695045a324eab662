import BufferPool.Log.Record
import BufferPool.Place

/-! # The write-ahead log

An open log appends records behind a buffer. Flushing or closing the log puts
the buffered records into the file. Opening a file cuts it down to its intact
records and goes on numbering after the last of them.
-/

namespace BufferPool

/-- A payload is too large if its length does not fit the header. The numbers overflow when a log is
opened behind the largest one, and underflow when it is flushed with 0 for the next one. -/
inductive LogError where
  | opening (cause : IoError)
  | reading (cause : IoError)
  | recordTooLarge
  | lsnOverflow
  | lsnUnderflow
  deriving DecidableEq, Repr

def LogError.message : LogError → String
  | opening e => s!"failed to open the log: {e.message}"
  | reading e => s!"failed to read the log: {e.message}"
  | recordTooLarge => "log record too large: out of range integral type conversion attempted"
  | lsnOverflow => "attempt to add with overflow"
  | lsnUnderflow => "attempt to subtract with overflow"

/-- An open log: its file up to the present end, the records that are not in the file yet, the
number of the next record, and that of the last one known to be in the file. -/
structure Log where
  file : Bytes
  pending : Bytes := []
  next : Lsn
  persistent : Lsn
  deriving DecidableEq

namespace Log

def bufferSize : Nat := 8192

/-- The number of the last record, or the invalid number if there is none. -/
def lastLsn (rs : List Record) : Lsn := (rs.getLast?.map Record.lsn).getD Lsn.invalid

/-- The log at a place, and what is at that place after. -/
def openAt (place : Place) : Except LogError Log × Place :=
  match place with
  | .file contents =>
    let (rs, length) := Record.decodeAll contents
    let file := contents.take length
    let last := lastLsn rs
    if last + 1 = 0 then (.error .lsnOverflow, .file file)
    else (.ok { file, next := last + 1, persistent := last }, .file file)
  | .vacant => (.ok { file := [], next := 1, persistent := Lsn.invalid }, .file [])
  | .directory => (.error (.reading .isDirectory), place)
  | .orphaned => (.error (.opening .notFound), place)

def recordsAt (place : Place) : Except LogError (List Record) :=
  match place.contents with
  | .ok contents => .ok (Record.decodeAll contents).1
  | .error e => .error (.reading e)

def drain (l : Log) : Log := { l with file := l.file ++ l.pending, pending := [] }

/-- Writes through the buffer: it is drained when `bs` does not fit, and bytes that would fill an
empty buffer go straight into the file. -/
def emit (l : Log) (bs : Bytes) : Log :=
  let spare := bufferSize - l.pending.length
  if bs.length < spare then { l with pending := l.pending ++ bs }
  else
    let l := if spare < bs.length then l.drain else l
    if bufferSize ≤ bs.length then { l with file := l.file ++ bs }
    else { l with pending := l.pending ++ bs }

/-- Appends a record and answers its number. The number after the largest is 0. -/
def append (l : Log) (payload : Bytes) : Except LogError Lsn × Log :=
  if payload.length < UInt32.size then
    (.ok l.next, { l.emit (Record.encode ⟨l.next, payload⟩) with next := l.next + 1 })
  else (.error .recordTooLarge, l)

/-- Puts every record into the file and answers the number of the last one. -/
def flush (l : Log) : Except LogError Lsn × Log :=
  let l := l.drain
  if l.next = 0 then (.error .lsnUnderflow, l)
  else (.ok (l.next - 1), { l with persistent := l.next - 1 })

/-- The file that a log leaves when it is closed. -/
def close (l : Log) : Bytes := l.drain.file

end Log

end BufferPool
