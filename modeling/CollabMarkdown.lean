import CollabMarkdown.Auth.Entries
import CollabMarkdown.Auth.Interleaving
import CollabMarkdown.Auth.Lookup
import CollabMarkdown.Auth.Usernames
import CollabMarkdown.CString.Basic
import CollabMarkdown.CString.Chunks
import CollabMarkdown.CString.Decimal
import CollabMarkdown.CString.Fields
import CollabMarkdown.CString.Lines
import CollabMarkdown.CString.Memory
import CollabMarkdown.CString.Requests
import CollabMarkdown.CString.Scan
import CollabMarkdown.CString.Signed
import CollabMarkdown.CString.Tokens
import CollabMarkdown.Client.Arguments
import CollabMarkdown.Client.Handshake
import CollabMarkdown.Client.Receive
import CollabMarkdown.Client.Replicas
import CollabMarkdown.Client.Select
import CollabMarkdown.Client.Typing
import CollabMarkdown.Command.Execute
import CollabMarkdown.Command.Grammar
import CollabMarkdown.Command.Numbers
import CollabMarkdown.Command.Rendering
import CollabMarkdown.Command.Session
import CollabMarkdown.Core.Announced
import CollabMarkdown.Core.Broadcast
import CollabMarkdown.Core.Decoding
import CollabMarkdown.Core.Editor
import CollabMarkdown.Core.Faulty
import CollabMarkdown.Core.Invariant
import CollabMarkdown.Core.NonInterference
import CollabMarkdown.Core.PlainText
import CollabMarkdown.Core.Replay
import CollabMarkdown.Core.ServerCore
import CollabMarkdown.Markdown.BlockMarkers
import CollabMarkdown.Markdown.CursorCommands
import CollabMarkdown.Markdown.Deletion
import CollabMarkdown.Markdown.Edit
import CollabMarkdown.Markdown.Editor
import CollabMarkdown.Markdown.Faulty
import CollabMarkdown.Markdown.Gaps
import CollabMarkdown.Markdown.Heap
import CollabMarkdown.Markdown.Nesting
import CollabMarkdown.Markdown.OrderedList
import CollabMarkdown.Markdown.Pending
import CollabMarkdown.Markdown.PlainText
import CollabMarkdown.Markdown.Plan
import CollabMarkdown.Markdown.RenumberBounds
import CollabMarkdown.Markdown.Renumbering
import CollabMarkdown.Markdown.SameVersion
import CollabMarkdown.Markdown.Session
import CollabMarkdown.Markdown.SpliceBounds
import CollabMarkdown.Markdown.SplitDeletions
import CollabMarkdown.Markdown.Survivors
import CollabMarkdown.Markdown.Trace
import CollabMarkdown.Posix.Fifos
import CollabMarkdown.Posix.Rendezvous
import CollabMarkdown.Process.Accept
import CollabMarkdown.Process.Admission
import CollabMarkdown.Process.Answered
import CollabMarkdown.Process.Atomicity
import CollabMarkdown.Process.Broadcasts
import CollabMarkdown.Process.Calls
import CollabMarkdown.Process.Chronicle
import CollabMarkdown.Process.CommandLines
import CollabMarkdown.Process.Connections
import CollabMarkdown.Process.Delivery
import CollabMarkdown.Process.Faults
import CollabMarkdown.Process.Following
import CollabMarkdown.Process.Linearizable
import CollabMarkdown.Process.Login
import CollabMarkdown.Process.Meeting
import CollabMarkdown.Process.Mutex
import CollabMarkdown.Process.Ownership
import CollabMarkdown.Process.Pairing
import CollabMarkdown.Process.Pipes
import CollabMarkdown.Process.Registry
import CollabMarkdown.Process.RegistryMap
import CollabMarkdown.Process.Sections
import CollabMarkdown.Process.StaleEdits
import CollabMarkdown.Process.Statements
import CollabMarkdown.Process.ThreadLife
import CollabMarkdown.Process.Threads
import CollabMarkdown.Sequence.Answers
import CollabMarkdown.Sequence.Bracket
import CollabMarkdown.Sequence.Copies
import CollabMarkdown.Sequence.Framing
import CollabMarkdown.Sequence.Gaps
import CollabMarkdown.Sequence.Keyed
import CollabMarkdown.Sequence.Ranked
import CollabMarkdown.Sequence.Separation
import CollabMarkdown.Sequence.Splice
import CollabMarkdown.Sequence.TailList
import CollabMarkdown.Transition.CriticalSections
import CollabMarkdown.Transition.FairMutex
import CollabMarkdown.Transition.Progress
import CollabMarkdown.Transition.Run
