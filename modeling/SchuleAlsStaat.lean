import SchuleAlsStaat.Actions.Identify
import SchuleAlsStaat.Actions.TaxCalc
import SchuleAlsStaat.Api.Certificate
import SchuleAlsStaat.Api.Channel
import SchuleAlsStaat.Client.CheckinTime
import SchuleAlsStaat.Client.Decimals
import SchuleAlsStaat.Client.Failover
import SchuleAlsStaat.Client.Names
import SchuleAlsStaat.Client.Payment
import SchuleAlsStaat.Client.Scanner
import SchuleAlsStaat.Client.SentOnce
import SchuleAlsStaat.Config.Sync
import SchuleAlsStaat.Dns.Failover
import SchuleAlsStaat.IdCards.Sheets
import SchuleAlsStaat.Ledger.Check
import SchuleAlsStaat.Ledger.Conservation
import SchuleAlsStaat.Ledger.Overdraft
import SchuleAlsStaat.Pending.Drain
import SchuleAlsStaat.Pending.Orphans
import SchuleAlsStaat.Pending.Permission
import SchuleAlsStaat.Pending.Stranded
import SchuleAlsStaat.Polling.App
import SchuleAlsStaat.Polling.Completion
import SchuleAlsStaat.Polling.Interference
import SchuleAlsStaat.Polling.Ownership
import SchuleAlsStaat.Server.Answers
import SchuleAlsStaat.Server.Attendance
import SchuleAlsStaat.Server.Changes
import SchuleAlsStaat.Server.Passwords
import SchuleAlsStaat.Server.Provenance
import SchuleAlsStaat.Server.Reading
import SchuleAlsStaat.Server.Receipts
import SchuleAlsStaat.Server.Registration
import SchuleAlsStaat.Server.Unforgotten
import SchuleAlsStaat.Session.Booked
import SchuleAlsStaat.Statement.Agreement
import SchuleAlsStaat.Statement.Last
import SchuleAlsStaat.Webcam.Survival
