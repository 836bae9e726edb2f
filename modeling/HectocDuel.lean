import HectocDuel.Decimal.Binary
import HectocDuel.Decimal.Numeral
import HectocDuel.Decimal.Shortest
import HectocDuel.Expr.Error
import HectocDuel.Expr.Postfix
import HectocDuel.Expr.Token
import HectocDuel.Expr.Tokens
import HectocDuel.Expr.Value
import HectocDuel.Hub.Event
import HectocDuel.Hub.Room
import HectocDuel.Hub.Step
import HectocDuel.Json.Escape
import HectocDuel.Json.Lexeme
import HectocDuel.Json.Number
import HectocDuel.Json.Reading
import HectocDuel.Json.Tree
import HectocDuel.Outbox
import HectocDuel.Proofs.Decimal.Arithmetic
import HectocDuel.Proofs.Decimal.Equality
import HectocDuel.Proofs.Decimal.Literal
import HectocDuel.Proofs.Decimal.Negation
import HectocDuel.Proofs.Decimal.Order
import HectocDuel.Proofs.Decimal.Rounding
import HectocDuel.Proofs.Expr.Balance
import HectocDuel.Proofs.Expr.Grammar
import HectocDuel.Proofs.Expr.Listing
import HectocDuel.Proofs.Expr.Machine
import HectocDuel.Proofs.Expr.Operands
import HectocDuel.Proofs.Expr.Postorder
import HectocDuel.Proofs.Expr.Rendering
import HectocDuel.Proofs.Expr.Scan
import HectocDuel.Proofs.Expr.Segments
import HectocDuel.Proofs.Expr.Sentence
import HectocDuel.Proofs.Expr.Sign
import HectocDuel.Proofs.Expr.Stages
import HectocDuel.Proofs.Hub.Absence
import HectocDuel.Proofs.Hub.Answer
import HectocDuel.Proofs.Hub.Delivery
import HectocDuel.Proofs.Hub.Independence
import HectocDuel.Proofs.Hub.Play
import HectocDuel.Proofs.Hub.Relay
import HectocDuel.Proofs.Hub.Reports
import HectocDuel.Proofs.Hub.Seats
import HectocDuel.Proofs.Hub.Signals
import HectocDuel.Proofs.Hub.Sound
import HectocDuel.Proofs.Hub.Stay
import HectocDuel.Proofs.Hub.Transition
import HectocDuel.Proofs.Hub.Turns
import HectocDuel.Proofs.Json.Cut
import HectocDuel.Proofs.Json.Encoding
import HectocDuel.Proofs.Json.Entries
import HectocDuel.Proofs.Json.Escape
import HectocDuel.Proofs.Json.Grammar
import HectocDuel.Proofs.Json.Lexeme
import HectocDuel.Proofs.Json.Numeral
import HectocDuel.Proofs.Outbox
import HectocDuel.Proofs.Puzzle.Digits
import HectocDuel.Proofs.Puzzle.Draw
import HectocDuel.Proofs.Puzzle.Parentheses
import HectocDuel.Proofs.Puzzle.Search
import HectocDuel.Proofs.Puzzle.Spelling
import HectocDuel.Proofs.Rating
import HectocDuel.Proofs.Server.Agreement
import HectocDuel.Proofs.Server.Departure
import HectocDuel.Proofs.Server.Listed
import HectocDuel.Proofs.Server.Registration
import HectocDuel.Proofs.Server.Run
import HectocDuel.Proofs.Server.Settled
import HectocDuel.Proofs.Server.Speech
import HectocDuel.Proofs.Session
import HectocDuel.Proofs.Settings
import HectocDuel.Proofs.Store.Books
import HectocDuel.Proofs.Store.Duel
import HectocDuel.Proofs.Store.Entries
import HectocDuel.Proofs.Store.Failure
import HectocDuel.Proofs.Store.Operations
import HectocDuel.Proofs.Store.Ratings
import HectocDuel.Proofs.Store.Replay
import HectocDuel.Proofs.Store.Work
import HectocDuel.Proofs.Table
import HectocDuel.Proofs.Target
import HectocDuel.Proofs.Text.Blank
import HectocDuel.Proofs.Text.Bytes
import HectocDuel.Proofs.Text.Split
import HectocDuel.Proofs.Url.Percent
import HectocDuel.Proofs.Url.Query
import HectocDuel.Proofs.Url.Reference
import HectocDuel.Proofs.Wire.Address
import HectocDuel.Proofs.Wire.Delimited
import HectocDuel.Proofs.Wire.Entries
import HectocDuel.Proofs.Wire.Records
import HectocDuel.Proofs.Wire.RoundTrip
import HectocDuel.Puzzle.Digits
import HectocDuel.Puzzle.Draw
import HectocDuel.Puzzle.Solve
import HectocDuel.Rating
import HectocDuel.Server
import HectocDuel.Session
import HectocDuel.Settings
import HectocDuel.Store.Books
import HectocDuel.Store.Games
import HectocDuel.Store.Service
import HectocDuel.Table
import HectocDuel.Target
import HectocDuel.Text.Bytes
import HectocDuel.Text.Cut
import HectocDuel.Text.Quoted
import HectocDuel.Text.Unprintable
import HectocDuel.Url.Address
import HectocDuel.Url.Host
import HectocDuel.Url.Percent
import HectocDuel.Url.Reference
import HectocDuel.Wire.Frame
import HectocDuel.Wire.Message
import HectocDuel.Wire.Records
