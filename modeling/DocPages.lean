import DocPages.Main
import DocPages.Proofs.Declaration.Outline
import DocPages.Proofs.Declaration.Attachment
import DocPages.Proofs.Token.Cut
import DocPages.Proofs.Declaration.ClassFile
import DocPages.Proofs.Declaration.RoundTrip
import DocPages.Proofs.Declaration.Names
import DocPages.Proofs.FileSystem.Way
import DocPages.Proofs.FileSystem.Write
import DocPages.Proofs.Page.Documents
import DocPages.Proofs.Generate.Writing
import DocPages.Proofs.Generate.Pages
import DocPages.Proofs.Token.Enclosed
import DocPages.Proofs.Token.Offset
import DocPages.Proofs.Token.Lookahead
import DocPages.Proofs.Token.Replace
import DocPages.Proofs.Declaration.Gist
import DocPages.Proofs.Declaration.Opaque
import DocPages.Proofs.FileSystem.Make
import DocPages.Proofs.Generate.Outcome
import DocPages.Proofs.FileSystem.Extend
import DocPages.Proofs.FileSystem.Entry
import DocPages.Proofs.FileSystem.Overwrite
import DocPages.Proofs.FileSystem.Tree
import DocPages.Proofs.Discovery.Walk
import DocPages.Proofs.Discovery.Grow
import DocPages.Proofs.Generate.Again
import DocPages.Proofs.Generate.Confined
import DocPages.Proofs.Discovery.Cycle
import DocPages.Proofs.Discovery.Exact
import DocPages.Proofs.Declaration.PlainName
import DocPages.Proofs.Declaration.NamePosition
import DocPages.Proofs.Declaration.FreeFunction
import DocPages.Proofs.Declaration.Front
import DocPages.Proofs.Declaration.NamelessBlock
import DocPages.Proofs.Discovery.Steps
import DocPages.Proofs.Discovery.Canonical
import DocPages.Proofs.Discovery.Alias
import DocPages.Proofs.CommandLine.Arguments
import DocPages.Proofs.CommandLine.Run
import DocPages.Proofs.Token.Settled
import DocPages.Proofs.DocBlock.Tags
import DocPages.Proofs.Text.Trim
import DocPages.Proofs.DocBlock.Content
import DocPages.Proofs.DocBlock.Layout
import DocPages.Proofs.Page.TagSection
import DocPages.Proofs.Page.Groups
import DocPages.Proofs.DocBlock.TagValues
import DocPages.Proofs.DocBlock.ClosingMark
import DocPages.Proofs.Page.Index
import DocPages.Proofs.Page.MemberEntry
import DocPages.Proofs.Page.ClosingMark
import DocPages.Proofs.Token.Ending
import DocPages.Proofs.Text.Utf8
import DocPages.Proofs.Text.LineEnding
import DocPages.Proofs.Discovery.Delete
import DocPages.Proofs.Generate.Reading
