import FlatSheet.Location
import FlatSheet.Scan.Comment
import FlatSheet.Scan.Cursor
import FlatSheet.Text.Blank
import FlatSheet.Text.Quoted
import FlatSheet.Diagnostic
import FlatSheet.Log
import FlatSheet.Scan.Visible
import FlatSheet.Scan.MatchingBrace
import FlatSheet.Event
import FlatSheet.Selector
import FlatSheet.Declaration
import FlatSheet.Flatten
import FlatSheet.Sink
import FlatSheet.Text.Infix
import FlatSheet.Url.Host
import FlatSheet.Url.Parse
import FlatSheet.Fetch.Addressing
import FlatSheet.Fetch.Source
import FlatSheet.Fetch.Response
import FlatSheet.Fetch.Client
import FlatSheet.Fetch.FileTree
import FlatSheet.CommandLine
import FlatSheet.Main
import FlatSheet.Proofs.Marked
import FlatSheet.Proofs.Outline
import FlatSheet.Proofs.Pieces
import FlatSheet.Proofs.Cursor
import FlatSheet.Proofs.Event
import FlatSheet.Proofs.Flattening
import FlatSheet.Proofs.Flatten
import FlatSheet.Proofs.Offset
import FlatSheet.Proofs.Settled
import FlatSheet.Proofs.Unclosed
import FlatSheet.Proofs.Extension
import FlatSheet.Proofs.Declaration
import FlatSheet.Proofs.Recursion
import FlatSheet.Proofs.Trivia
import FlatSheet.Proofs.Printing
import FlatSheet.Proofs.BlockEnd
import FlatSheet.Proofs.Visible
import FlatSheet.Proofs.Flat
import FlatSheet.Proofs.Fixed
import FlatSheet.Proofs.Concatenation
import FlatSheet.Proofs.Bytes
import FlatSheet.Proofs.Place
import FlatSheet.Proofs.Lossy
import FlatSheet.Proofs.Addressing
import FlatSheet.Proofs.Naming
import FlatSheet.Proofs.Remembering
import FlatSheet.Proofs.ParentReference
import FlatSheet.Proofs.History
import FlatSheet.Proofs.Texts
import FlatSheet.Proofs.OutputModes
import FlatSheet.Proofs.Fragment
import FlatSheet.Proofs.Stripping
import FlatSheet.Proofs.Excision
import FlatSheet.Proofs.Conservation
import FlatSheet.Proofs.Bytewise
import FlatSheet.Proofs.MatchingBrace
import FlatSheet.Proofs.TextPlace
import FlatSheet.Proofs.Reading
import FlatSheet.Proofs.Calls
import FlatSheet.Proofs.Guarded
import FlatSheet.Proofs.GuardedEvents
import FlatSheet.Proofs.Running
import FlatSheet.Proofs.Safety
import FlatSheet.Proofs.Buffers
import FlatSheet.Proofs.Sibling
import FlatSheet.Proofs.Rescan
import FlatSheet.Proofs.Reserved
