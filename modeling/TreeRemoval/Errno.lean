/-! # System error numbers

The error numbers a file-system call may answer with, their standard texts, and the class of error
that a log line names for each of them.
-/

namespace TreeRemoval

inductive ErrorClass
  | general | permission | notFound | processLookup | interrupted | childProcess | wouldBlock
  | alreadyExists | notADirectory | isADirectory | brokenPipe | connectionReset | timeout
  deriving DecidableEq, Repr

namespace ErrorClass

def all : List ErrorClass :=
  [general, permission, notFound, processLookup, interrupted, childProcess, wouldBlock,
    alreadyExists, notADirectory, isADirectory, brokenPipe, connectionReset, timeout]

/-- The word for the class in messages and log lines. -/
def name : ErrorClass → String
  | general => "OSError"
  | permission => "PermissionError"
  | notFound => "FileNotFoundError"
  | processLookup => "ProcessLookupError"
  | interrupted => "InterruptedError"
  | childProcess => "ChildProcessError"
  | wouldBlock => "BlockingIOError"
  | alreadyExists => "FileExistsError"
  | notADirectory => "NotADirectoryError"
  | isADirectory => "IsADirectoryError"
  | brokenPipe => "BrokenPipeError"
  | connectionReset => "ConnectionResetError"
  | timeout => "TimeoutError"

def ofName? (name : String) : Option ErrorClass := all.find? (·.name = name)

end ErrorClass

inductive Errno
  | eperm | enoent | esrch | eintr | eio | echild | eagain | eacces | ebusy | eexist | enotdir
  | eisdir | einval | etxtbsy | enospc | erofs | epipe | enametoolong | enotempty | eloop
  | econnreset | enotconn | etimedout | estale
  deriving DecidableEq, Repr

namespace Errno

def all : List Errno :=
  [eperm, enoent, esrch, eintr, eio, echild, eagain, eacces, ebusy, eexist, enotdir, eisdir,
    einval, etxtbsy, enospc, erofs, epipe, enametoolong, enotempty, eloop, econnreset, enotconn,
    etimedout, estale]

structure Entry where
  number : Nat
  symbol : String
  text : String
  errorClass : ErrorClass

def entry : Errno → Entry
  | eperm => ⟨1, "EPERM", "Operation not permitted", .permission⟩
  | enoent => ⟨2, "ENOENT", "No such file or directory", .notFound⟩
  | esrch => ⟨3, "ESRCH", "No such process", .processLookup⟩
  | eintr => ⟨4, "EINTR", "Interrupted system call", .interrupted⟩
  | eio => ⟨5, "EIO", "Input/output error", .general⟩
  | echild => ⟨10, "ECHILD", "No child processes", .childProcess⟩
  | eagain => ⟨11, "EAGAIN", "Resource temporarily unavailable", .wouldBlock⟩
  | eacces => ⟨13, "EACCES", "Permission denied", .permission⟩
  | ebusy => ⟨16, "EBUSY", "Device or resource busy", .general⟩
  | eexist => ⟨17, "EEXIST", "File exists", .alreadyExists⟩
  | enotdir => ⟨20, "ENOTDIR", "Not a directory", .notADirectory⟩
  | eisdir => ⟨21, "EISDIR", "Is a directory", .isADirectory⟩
  | einval => ⟨22, "EINVAL", "Invalid argument", .general⟩
  | etxtbsy => ⟨26, "ETXTBSY", "Text file busy", .general⟩
  | enospc => ⟨28, "ENOSPC", "No space left on device", .general⟩
  | erofs => ⟨30, "EROFS", "Read-only file system", .general⟩
  | epipe => ⟨32, "EPIPE", "Broken pipe", .brokenPipe⟩
  | enametoolong => ⟨36, "ENAMETOOLONG", "File name too long", .general⟩
  | enotempty => ⟨39, "ENOTEMPTY", "Directory not empty", .general⟩
  | eloop => ⟨40, "ELOOP", "Too many levels of symbolic links", .general⟩
  | econnreset => ⟨104, "ECONNRESET", "Connection reset by peer", .connectionReset⟩
  | enotconn => ⟨107, "ENOTCONN", "Transport endpoint is not connected", .general⟩
  | etimedout => ⟨110, "ETIMEDOUT", "Connection timed out", .timeout⟩
  | estale => ⟨116, "ESTALE", "Stale file handle", .general⟩

def number (e : Errno) : Nat := e.entry.number

def symbol (e : Errno) : String := e.entry.symbol

def text (e : Errno) : String := e.entry.text

def errorClass (e : Errno) : ErrorClass := e.entry.errorClass

def ofNumber? (n : Nat) : Option Errno := all.find? (·.number = n)

def ofSymbol? (symbol : String) : Option Errno := all.find? (·.symbol = symbol)

def isMissing : Errno → Bool
  | enoent | enotdir => true
  | _ => false

end Errno

end TreeRemoval
