import DocPages.Text.Basic

/-!
# Error numbers

The numbers by which the operating system tells why it refused an operation (`errorNumbers`), each
with its kind (`ErrorKind`) and its description.
-/

namespace DocPages

/-- The kinds of system errors. -/
inductive ErrorKind where
  | notFound
  | permissionDenied
  | alreadyExists
  | notADirectory
  | isADirectory
  | invalidFilename
  | invalidInput
  | invalidData
  | filesystemLoop
  | directoryNotEmpty
  | readOnlyFilesystem
  | storageFull
  | quotaExceeded
  | fileTooLarge
  | tooManyLinks
  | crossesDevices
  | resourceBusy
  | executableFileBusy
  | tooManyOpenFiles
  | inputOutput
  | outOfMemory
  | argumentListTooLong
  | interrupted
  | wouldBlock
  | brokenPipe
  | notSeekable
  | deadlock
  | unsupported
  | timedOut
  | inProgress
  | addressInUse
  | addressNotAvailable
  | networkDown
  | networkUnreachable
  | hostUnreachable
  | notConnected
  | connectionAborted
  | connectionRefused
  | connectionReset
  | staleFileHandle
  | uncategorized
  | other
  deriving DecidableEq, Repr

/-- The error numbers of the system, each with its kind and description. -/
def errorNumbers : List (Int × ErrorKind × Text) := [
  (0, .uncategorized, "Success".toList),
  (1, .permissionDenied, "Operation not permitted".toList),
  (2, .notFound, "No such file or directory".toList),
  (3, .uncategorized, "No such process".toList),
  (4, .interrupted, "Interrupted system call".toList),
  (5, .inputOutput, "Input/output error".toList),
  (6, .uncategorized, "No such device or address".toList),
  (7, .argumentListTooLong, "Argument list too long".toList),
  (8, .uncategorized, "Exec format error".toList),
  (9, .uncategorized, "Bad file descriptor".toList),
  (10, .uncategorized, "No child processes".toList),
  (11, .wouldBlock, "Resource temporarily unavailable".toList),
  (12, .outOfMemory, "Cannot allocate memory".toList),
  (13, .permissionDenied, "Permission denied".toList),
  (14, .uncategorized, "Bad address".toList),
  (15, .uncategorized, "Block device required".toList),
  (16, .resourceBusy, "Device or resource busy".toList),
  (17, .alreadyExists, "File exists".toList),
  (18, .crossesDevices, "Invalid cross-device link".toList),
  (19, .uncategorized, "No such device".toList),
  (20, .notADirectory, "Not a directory".toList),
  (21, .isADirectory, "Is a directory".toList),
  (22, .invalidInput, "Invalid argument".toList),
  (23, .tooManyOpenFiles, "Too many open files in system".toList),
  (24, .tooManyOpenFiles, "Too many open files".toList),
  (25, .uncategorized, "Inappropriate ioctl for device".toList),
  (26, .executableFileBusy, "Text file busy".toList),
  (27, .fileTooLarge, "File too large".toList),
  (28, .storageFull, "No space left on device".toList),
  (29, .notSeekable, "Illegal seek".toList),
  (30, .readOnlyFilesystem, "Read-only file system".toList),
  (31, .tooManyLinks, "Too many links".toList),
  (32, .brokenPipe, "Broken pipe".toList),
  (33, .uncategorized, "Numerical argument out of domain".toList),
  (34, .uncategorized, "Numerical result out of range".toList),
  (35, .deadlock, "Resource deadlock avoided".toList),
  (36, .invalidFilename, "File name too long".toList),
  (37, .uncategorized, "No locks available".toList),
  (38, .unsupported, "Function not implemented".toList),
  (39, .directoryNotEmpty, "Directory not empty".toList),
  (40, .filesystemLoop, "Too many levels of symbolic links".toList),
  (42, .uncategorized, "No message of desired type".toList),
  (43, .uncategorized, "Identifier removed".toList),
  (44, .uncategorized, "Channel number out of range".toList),
  (45, .uncategorized, "Level 2 not synchronized".toList),
  (46, .uncategorized, "Level 3 halted".toList),
  (47, .uncategorized, "Level 3 reset".toList),
  (48, .uncategorized, "Link number out of range".toList),
  (49, .uncategorized, "Protocol driver not attached".toList),
  (50, .uncategorized, "No CSI structure available".toList),
  (51, .uncategorized, "Level 2 halted".toList),
  (52, .uncategorized, "Invalid exchange".toList),
  (53, .uncategorized, "Invalid request descriptor".toList),
  (54, .uncategorized, "Exchange full".toList),
  (55, .uncategorized, "No anode".toList),
  (56, .uncategorized, "Invalid request code".toList),
  (57, .uncategorized, "Invalid slot".toList),
  (59, .uncategorized, "Bad font file format".toList),
  (60, .uncategorized, "Device not a stream".toList),
  (61, .uncategorized, "No data available".toList),
  (62, .uncategorized, "Timer expired".toList),
  (63, .uncategorized, "Out of streams resources".toList),
  (64, .uncategorized, "Machine is not on the network".toList),
  (65, .uncategorized, "Package not installed".toList),
  (66, .uncategorized, "Object is remote".toList),
  (67, .uncategorized, "Link has been severed".toList),
  (68, .uncategorized, "Advertise error".toList),
  (69, .uncategorized, "Srmount error".toList),
  (70, .uncategorized, "Communication error on send".toList),
  (71, .uncategorized, "Protocol error".toList),
  (72, .uncategorized, "Multihop attempted".toList),
  (73, .uncategorized, "RFS specific error".toList),
  (74, .uncategorized, "Bad message".toList),
  (75, .uncategorized, "Value too large for defined data type".toList),
  (76, .uncategorized, "Name not unique on network".toList),
  (77, .uncategorized, "File descriptor in bad state".toList),
  (78, .uncategorized, "Remote address changed".toList),
  (79, .uncategorized, "Can not access a needed shared library".toList),
  (80, .uncategorized, "Accessing a corrupted shared library".toList),
  (81, .uncategorized, ".lib section in a.out corrupted".toList),
  (82, .uncategorized, "Attempting to link in too many shared libraries".toList),
  (83, .uncategorized, "Cannot exec a shared library directly".toList),
  (84, .uncategorized, "Invalid or incomplete multibyte or wide character".toList),
  (85, .uncategorized, "Interrupted system call should be restarted".toList),
  (86, .uncategorized, "Streams pipe error".toList),
  (87, .uncategorized, "Too many users".toList),
  (88, .uncategorized, "Socket operation on non-socket".toList),
  (89, .uncategorized, "Destination address required".toList),
  (90, .uncategorized, "Message too long".toList),
  (91, .uncategorized, "Protocol wrong type for socket".toList),
  (92, .uncategorized, "Protocol not available".toList),
  (93, .uncategorized, "Protocol not supported".toList),
  (94, .uncategorized, "Socket type not supported".toList),
  (95, .unsupported, "Operation not supported".toList),
  (96, .uncategorized, "Protocol family not supported".toList),
  (97, .uncategorized, "Address family not supported by protocol".toList),
  (98, .addressInUse, "Address already in use".toList),
  (99, .addressNotAvailable, "Cannot assign requested address".toList),
  (100, .networkDown, "Network is down".toList),
  (101, .networkUnreachable, "Network is unreachable".toList),
  (102, .uncategorized, "Network dropped connection on reset".toList),
  (103, .connectionAborted, "Software caused connection abort".toList),
  (104, .connectionReset, "Connection reset by peer".toList),
  (105, .uncategorized, "No buffer space available".toList),
  (106, .uncategorized, "Transport endpoint is already connected".toList),
  (107, .notConnected, "Transport endpoint is not connected".toList),
  (108, .uncategorized, "Cannot send after transport endpoint shutdown".toList),
  (109, .uncategorized, "Too many references: cannot splice".toList),
  (110, .timedOut, "Connection timed out".toList),
  (111, .connectionRefused, "Connection refused".toList),
  (112, .uncategorized, "Host is down".toList),
  (113, .hostUnreachable, "No route to host".toList),
  (114, .uncategorized, "Operation already in progress".toList),
  (115, .inProgress, "Operation now in progress".toList),
  (116, .staleFileHandle, "Stale file handle".toList),
  (117, .uncategorized, "Structure needs cleaning".toList),
  (118, .uncategorized, "Not a XENIX named type file".toList),
  (119, .uncategorized, "No XENIX semaphores available".toList),
  (120, .uncategorized, "Is a named type file".toList),
  (121, .uncategorized, "Remote I/O error".toList),
  (122, .quotaExceeded, "Disk quota exceeded".toList),
  (123, .uncategorized, "No medium found".toList),
  (124, .uncategorized, "Wrong medium type".toList),
  (125, .uncategorized, "Operation canceled".toList),
  (126, .uncategorized, "Required key not available".toList),
  (127, .uncategorized, "Key has expired".toList),
  (128, .uncategorized, "Key has been revoked".toList),
  (129, .uncategorized, "Key was rejected by service".toList),
  (130, .uncategorized, "Owner died".toList),
  (131, .uncategorized, "State not recoverable".toList),
  (132, .uncategorized, "Operation not possible due to RF-kill".toList),
  (133, .uncategorized, "Memory page has hardware error".toList)]

end DocPages
