import TableView.Main
import TableView.Proofs.Cache.History
import TableView.Proofs.Cache.Naming
import TableView.Proofs.CommandLine.Served
import TableView.Proofs.Entries.Tabulate
import TableView.Proofs.Markup.Escapes
import TableView.Proofs.Markup.Leaves
import TableView.Proofs.Markup.Literal
import TableView.Proofs.Markup.Nesting
import TableView.Proofs.Markup.Written
import TableView.Proofs.Payload.Agreement
import TableView.Proofs.Payload.Coercion
import TableView.Proofs.Payload.Spelling
import TableView.Proofs.Query.Between
import TableView.Proofs.Query.Expression
import TableView.Proofs.Query.Json
import TableView.Proofs.Report
import TableView.Proofs.Session.Cached
import TableView.Proofs.Session.Effect
import TableView.Proofs.Session.Stream
import TableView.Proofs.Settings.Layers
import TableView.Proofs.View.Columns
import TableView.Proofs.View.Dated
import TableView.Proofs.View.Json
import TableView.Proofs.View.Lists
